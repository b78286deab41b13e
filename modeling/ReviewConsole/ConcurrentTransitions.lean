import ReviewConsole.CaseTrails
import ReviewConsole.InterleavedPools
import Mathlib.Logic.Relation

/-!
# Concurrent transitions of one case

Like the console, the engine reads a case, decides, and upserts what it decided. When every
write finds the case its call had read, the calls have moved the case one after the other:
each successful call has its entry in the history, and the path stays legal.
-/
namespace ReviewConsole
open PortPrograms GuardedRuns InterleavedPools

/-- One call of `transition_case`. -/
structure TransitionCall where
  args : TransitionArgs
  readings : Readings

namespace TransitionCall

variable (svc : CaseWorkflowService)

def program (call : TransitionCall) : Service Case := svc.transitionCase call.args call.readings

/-- What the call makes of the case it reads, if the edge is legal. -/
def update (call : TransitionCall) : Option Case → Option (Option Case)
  | none => none
  | some c =>
    match svc.definitions.definition c.caseType with
    | none => none
    | some d =>
      if d.isLegal c.state call.args.toState then
        some (some (CaseWorkflowService.advanced c call.args call.readings.now))
      else none

/-- A call that returned a case has written it, and a call that raised has written nothing. -/
def Explains (call : TransitionCall) (read : Option Case) : Except ServiceError Case → Prop
  | .ok c => call.update svc read = some (some c)
  | .error _ => call.update svc read = none

end TransitionCall

section
variable {svc : CaseWorkflowService} {call : TransitionCall}

theorem TransitionCall.update_eq_some {v v' : Option Case} (h : call.update svc v = some v') :
    ∃ c d, v = some c ∧ svc.definitions.definition c.caseType = some d ∧
      d.isLegal c.state call.args.toState = true ∧
      v' = some (CaseWorkflowService.advanced c call.args call.readings.now) := by
  cases v with
  | none => cases h
  | some c =>
    simp only [TransitionCall.update] at h
    split at h
    · cases h
    · rename_i d hdefinition
      split at h
      · rename_i hlegal
        exact ⟨c, d, rfl, hdefinition, hlegal, (Option.some.inj h).symm⟩
      · cases h

end

/-- One stored case as the cell that the calls share. The writes of the review store are
counted in, so that every other operation answers. -/
def caseCell (tenant caseId : String) : Cell localPorts (Option Case) where
  content w := w.getCase tenant caseId
  seen
    | .caseGet t i, .ok c => if t = tenant ∧ i = caseId then some c else none
    | _, _ => none
  writes
    | .casePut _ => true
    | .reviewPut _ => true
    | .reviewPutIfAbsentBySourceKey _ => true
    | _ => false
  seen_content op w v h := by
    cases op with
    | caseGet t i =>
      simp only [localPorts] at h
      split at h
      · rename_i hkey
        obtain ⟨rfl, rfl⟩ := hkey
        exact (Option.some.inj h).symm
      · cases h
    | _ => simp at h
  frame op w h := by cases op <;> first | rfl | simp at h
  answers op w h := by cases op <;> first | exact ⟨_, rfl⟩ | simp at h

section
variable {svc : CaseWorkflowService} {tenant caseId : String} {call : TransitionCall}

private theorem satisfies_cancelLoop (c : Case) (specs : List ClockSpec) :
    (CaseWorkflowService.cancelLoop c specs).Satisfies
      (fun op => (caseCell tenant caseId).writes op = false) (fun x => x = .ok ()) := by
  induction specs with
  | nil => rfl
  | cons spec specs ih => exact ⟨rfl, fun _ => ih⟩

private theorem satisfies_cancelClocks (c : Case) (d : WorkflowDefinition) :
    (svc.cancelClocks c d).Satisfies (fun op => (caseCell tenant caseId).writes op = false)
      (fun x => x = .ok ()) := by
  simp only [CaseWorkflowService.cancelClocks]
  split
  · exact satisfies_cancelLoop c d.clocks
  · rfl

private theorem satisfies_emit (eventType : String) (c : Case) :
    (svc.emit eventType c).Satisfies (fun op => (caseCell tenant caseId).writes op = false)
      (fun x => x = .ok ()) := by
  simp only [CaseWorkflowService.emit]
  split
  · exact ⟨rfl, fun _ => rfl⟩
  · rfl

private def settling (svc : CaseWorkflowService) (call : TransitionCall) (c moved : Case)
    (d : WorkflowDefinition) : Service Case := do
  if d.isTerminal moved.state then
    svc.cancelClocks moved d
  svc.emit "case.transitioned" moved
  svc.record moved "transition" call.args.actor c.state moved.state .allowed call.args.reason []
    call.readings.timestamp
  pure moved

private theorem satisfies_settling (c moved : Case) (d : WorkflowDefinition)
    {Q : Except ServiceError Case → Prop} (hQ : Q (.ok moved)) :
    (settling svc call c moved d).Satisfies (fun op => (caseCell tenant caseId).writes op = false)
      Q := by
  have hemitted : (svc.emit "case.transitioned" moved >>= fun _ =>
      svc.record moved "transition" call.args.actor c.state moved.state .allowed call.args.reason []
        call.readings.timestamp >>= fun _ => pure moved).Satisfies
      (fun op => (caseCell tenant caseId).writes op = false) Q := by
    refine Program.Satisfies.bind ((satisfies_emit _ moved).mono (fun _ h => h) ?_)
    rintro _ rfl
    exact ⟨rfl, fun _ => hQ⟩
  simp only [settling]
  split
  · refine Program.Satisfies.bind ((satisfies_cancelClocks moved d).mono (fun _ h => h) ?_)
    rintro _ rfl
    exact hemitted
  · exact hemitted

theorem transition_updates (htenant : call.args.tenant = tenant) (hid : call.args.caseId = caseId) :
    (caseCell tenant caseId).Updates (call.update svc) (call.Explains svc) (call.program svc) := by
  subst htenant hid
  refine ⟨.caseGet call.args.tenant call.args.caseId, _, rfl, rfl, ?_⟩
  intro read
  refine ⟨read, by simp [caseCell], ?_⟩
  cases read with
  | none => rfl
  | some c =>
    cases hdef : svc.definitions.definition c.caseType with
    | none =>
      have hupdate : call.update svc (some c) = none := by simp [TransitionCall.update, hdef]
      have hraise : svc.definition c.caseType = .raise (.unknownWorkflow c.caseType) := by
        simp only [CaseWorkflowService.definition, hdef]
      rw [hupdate]
      change ((svc.definition c.caseType >>= _ : Service Case).Satisfies _ _)
      rw [hraise]
      exact hupdate
    | some d =>
      have hreturn : svc.definition c.caseType = pure d := by
        simp only [CaseWorkflowService.definition, hdef]
      rcases transition_cases c call.args.toState call.args.actor call.args.reason
        (call.args.asOf.getD call.readings.now) d with ⟨hlegal, hmove⟩ | ⟨hlegal, hmove⟩
      · have hupdate : call.update svc (some c) = none := by
          simp [TransitionCall.update, hdef, hlegal]
        rw [hupdate]
        change ((svc.definition c.caseType >>= _ : Service Case).Satisfies _ _)
        rw [hreturn, pure_bind, hmove]
        exact ⟨rfl, fun _ => hupdate⟩
      · have hupdate : call.update svc (some c) =
            some (some (CaseWorkflowService.advanced c call.args call.readings.now)) := by
          simp [TransitionCall.update, hdef, hlegal]
        rw [hupdate]
        refine ⟨.casePut (CaseWorkflowService.advanced c call.args call.readings.now),
          fun _ => settling svc call c _ d, ?_, rfl, ?_, fun _ => satisfies_settling c _ d hupdate⟩
        · change (svc.definition c.caseType >>= _ : Service Case) = _
          rw [hreturn, pure_bind, hmove]
          rfl
        · intro w hget
          refine ⟨(), rfl, ?_⟩
          have hkey : (CaseWorkflowService.advanced c call.args call.readings.now).key =
              (call.args.tenant, call.args.caseId) := by
            rw [← World.key_of_getCase hget]
            rfl
          change (w.cases.upsert _).find? _ = _
          rw [← hkey]
          exact KeyedTables.KeyedTable.find?_upsert_self

end

def storedHistory (v : Option Case) : List Transition := (v.map Case.history).getD []

def transitioning (svc : CaseWorkflowService) (w : World) (calls : List TransitionCall)
    (is : List ℕ) : Pool PortOp PortOp.Ret ServiceError Case World :=
  run (Pool.step localPorts) (.start w (calls.map (TransitionCall.program svc))) is

/-- The entry that call `i`, which returned a case, has in the history. -/
def EntryOf (calls : List TransitionCall) (p : Pool PortOp PortOp.Ret ServiceError Case World)
    (i : ℕ) (t : Transition) : Prop :=
  ∃ call moved, calls[i]? = some call ∧ p.threads[i]? = some (.done moved) ∧
    moved.history.getLast? = some t ∧ t.toState = call.args.toState ∧ t.actor = call.args.actor

/-- No transition was lost on the way from the first world to the pool. -/
structure TransitionsKept (svc : CaseWorkflowService) (w : World) (tenant caseId : String)
    (calls : List TransitionCall) (p : Pool PortOp PortOp.Ret ServiceError Case World) : Prop where
  entries : ∃ order entries, order.Nodup ∧
    (∀ i, i ∈ order ↔ ∃ moved, p.threads[i]? = some (.done moved)) ∧
    List.Forall₂ (EntryOf calls p) order entries ∧
    storedHistory (p.shared.getCase tenant caseId) =
      storedHistory (w.getCase tenant caseId) ++ entries
  path : ∀ c, p.shared.getCase tenant caseId = some c → ∃ d,
    svc.definitions.definition c.caseType = some d ∧ LegalHistory d c.history c.state
  settled : ∀ (i : ℕ) moved d, p.threads[i]? = some (.done moved) →
    svc.definitions.definition moved.caseType = some d → d.isTerminal moved.state = true →
    ∃ c, p.shared.getCase tenant caseId = some c ∧
      Relation.ReflTransGen (fun s t => d.isLegal s t = true) moved.state c.state

section
variable {svc : CaseWorkflowService} {w : World} {tenant caseId : String}
variable {calls : List TransitionCall} {is : List ℕ}

private theorem moves_update
    (hcalls : ∀ call ∈ calls, call.args.tenant = tenant ∧ call.args.caseId = caseId) :
    ∀ call ∈ calls, (caseCell tenant caseId).Updates (call.update svc) (call.Explains svc)
      (call.program svc) := by
  intro call hcall
  obtain ⟨htenant, hid⟩ := hcalls call hcall
  exact transition_updates htenant hid

private theorem update_keeps_path (i : ℕ) (v v' : Option Case)
    (hupdate : Cell.updateOf (TransitionCall.update svc) calls i v = some v')
    (h : ∀ c, v = some c → ∃ d, svc.definitions.definition c.caseType = some d ∧
      LegalHistory d c.history c.state) :
    ∀ c, v' = some c → ∃ d, svc.definitions.definition c.caseType = some d ∧
      LegalHistory d c.history c.state := by
  obtain ⟨call, -, hcall⟩ := Cell.updateOf_eq_some hupdate
  obtain ⟨c, d, rfl, hdefinition, hlegal, rfl⟩ := call.update_eq_some hcall
  rintro _ ⟨⟩
  obtain ⟨d', hdefinition', hpath⟩ := h c rfl
  cases hdefinition.symm.trans hdefinition'
  exact ⟨d, hdefinition, hpath.case_moved hlegal _ _ _⟩

private theorem update_keeps_reachable {c₀ : Case} {d : WorkflowDefinition}
    (hdefinition : svc.definitions.definition c₀.caseType = some d) (i : ℕ) (v v' : Option Case)
    (hupdate : Cell.updateOf (TransitionCall.update svc) calls i v = some v')
    (h : ∃ c, v = some c ∧ c.caseType = c₀.caseType ∧
      Relation.ReflTransGen (fun s t => d.isLegal s t = true) c₀.state c.state) :
    ∃ c, v' = some c ∧ c.caseType = c₀.caseType ∧
      Relation.ReflTransGen (fun s t => d.isLegal s t = true) c₀.state c.state := by
  obtain ⟨call, -, hcall⟩ := Cell.updateOf_eq_some hupdate
  obtain ⟨c, d', rfl, hdefinition', hlegal, rfl⟩ := call.update_eq_some hcall
  obtain ⟨_, ⟨⟩, htype, hreach⟩ := h
  rw [htype, hdefinition] at hdefinition'
  cases hdefinition'
  exact ⟨_, rfl, htype, hreach.tail hlegal⟩

variable {p : Pool PortOp PortOp.Ret ServiceError Case World} {v₀ : Option Case}

private theorem writer_returned
    (hcalls : ∀ call ∈ calls, call.args.tenant = tenant ∧ call.args.caseId = caseId)
    (hserial : (caseCell tenant caseId).Serialized (Cell.updateOf (TransitionCall.update svc) calls)
      (Cell.explainsOf (TransitionCall.Explains svc) calls) v₀
      (calls.map (TransitionCall.program svc)) p) (hreturned : p.finished = true)
    {pre post : List ℕ} {i : ℕ} {v v' : Option Case}
    (hwriters : (caseCell tenant caseId).writers p.trace = pre ++ i :: post)
    (hpre : Cell.serial (Cell.updateOf (TransitionCall.update svc) calls) v₀ pre = some v)
    (hupdate : Cell.updateOf (TransitionCall.update svc) calls i v = some v') :
    ∃ call moved, calls[i]? = some call ∧ p.threads[i]? = some (.done moved) ∧
      call.update svc v = some (some moved) ∧ v' = some moved := by
  obtain ⟨call, hi, hcall⟩ := Cell.updateOf_eq_some hupdate
  have hlen : i < p.threads.length := by
    rw [hserial.length, List.length_map]
    exact (List.getElem?_eq_some_iff.mp hi).1
  obtain ⟨x, hx⟩ := Pool.finished_thread hreturned (List.getElem?_eq_getElem hlen)
  have hthread : p.threads[i]? = some (.ended x) := by rw [List.getElem?_eq_getElem hlen, hx]
  have hexplains := hserial.call_wrote (moves_update hcalls) hi hthread hwriters hpre
  cases x with
  | error e => cases hcall.symm.trans hexplains
  | ok moved =>
    exact ⟨call, moved, hi, hthread, hexplains, Option.some.inj (hcall.symm.trans hexplains)⟩

private theorem returned_wrote
    (hcalls : ∀ call ∈ calls, call.args.tenant = tenant ∧ call.args.caseId = caseId)
    (hserial : (caseCell tenant caseId).Serialized (Cell.updateOf (TransitionCall.update svc) calls)
      (Cell.explainsOf (TransitionCall.Explains svc) calls) v₀
      (calls.map (TransitionCall.program svc)) p) {i : ℕ} {moved : Case}
    (hdone : p.threads[i]? = some (.done moved)) :
    ∃ v pre post, (caseCell tenant caseId).writers p.trace = pre ++ i :: post ∧
      Cell.serial (Cell.updateOf (TransitionCall.update svc) calls) v₀ pre = some v ∧
      Cell.updateOf (TransitionCall.update svc) calls i v = some (some moved) := by
  have hlen : i < calls.length := by
    have hlength : p.threads.length = calls.length := hserial.length.trans (List.length_map _)
    rw [← hlength]
    exact (List.getElem?_eq_some_iff.mp hdone).1
  have hi := List.getElem?_eq_getElem hlen
  have hended : p.threads[i]? = some (.ended (.ok moved)) := hdone
  rcases hserial.call_returned (moves_update hcalls) hi hended with
    ⟨v, v', pre, post, hwriters, hpre, -, hexplains⟩ | ⟨-, v, hupdate, hexplains⟩
  · refine ⟨v, pre, post, hwriters, hpre, ?_⟩
    rw [Cell.updateOf_call hi]
    exact hexplains
  · cases hupdate.symm.trans hexplains

end

/-- When every write finds the case its call had read, no transition is lost in any
interleaving of any number of calls on a case that the engine has stored. -/
theorem transitions_kept (svc : CaseWorkflowService) (rs : List CaseRequest)
    (hfresh : Along (serveCase svc) FreshCase World.empty rs) (tenant caseId : String)
    (calls : List TransitionCall)
    (hcalls : ∀ call ∈ calls, call.args.tenant = tenant ∧ call.args.caseId = caseId) (is : List ℕ)
    (hcurrent : Along (Pool.step localPorts) (caseCell tenant caseId).Current
      (.start (engineAfter svc rs) (calls.map (TransitionCall.program svc))) is)
    (hreturned : (transitioning svc (engineAfter svc rs) calls is).finished = true) :
    TransitionsKept svc (engineAfter svc rs) tenant caseId calls
      (transitioning svc (engineAfter svc rs) calls is) := by
  have hserial : (caseCell tenant caseId).Serialized
      (Cell.updateOf (TransitionCall.update svc) calls)
      (Cell.explainsOf (TransitionCall.Explains svc) calls)
      ((engineAfter svc rs).getCase tenant caseId) (calls.map (TransitionCall.program svc))
      (transitioning svc (engineAfter svc rs) calls is) :=
    Cell.serialized_calls (moves_update hcalls) _ is hcurrent
  generalize transitioning svc (engineAfter svc rs) calls is = p at hserial hreturned ⊢
  constructor
  · have hone : ∀ pre i post v v', (caseCell tenant caseId).writers p.trace = pre ++ i :: post →
        Cell.serial (Cell.updateOf (TransitionCall.update svc) calls)
          ((engineAfter svc rs).getCase tenant caseId) pre = some v →
        Cell.updateOf (TransitionCall.update svc) calls i v = some v' →
        ∃ t, storedHistory v' = storedHistory v ++ [t] ∧ EntryOf calls p i t := by
      intro pre i post v v' hwriters hpre hupdate
      obtain ⟨call, moved, hi, hdone, hcall, rfl⟩ :=
        writer_returned hcalls hserial hreturned hwriters hpre hupdate
      obtain ⟨c, d, rfl, -, -, hmoved⟩ := call.update_eq_some hcall
      cases hmoved
      exact ⟨c.entry call.args.toState call.args.actor call.args.reason
        (call.args.asOf.getD call.readings.now), rfl, call, _, hi, hdone,
        by simp [CaseWorkflowService.advanced], rfl, rfl⟩
    obtain ⟨entries, hgrown, hentries⟩ :=
      Cell.serial_log storedHistory (EntryOf calls p) hone hserial.content
    refine ⟨_, entries, hserial.nodup, ?_, hentries, hgrown⟩
    intro i
    constructor
    · intro hi
      obtain ⟨pre, post, v, v', hwriters, hpre, hupdate⟩ := Cell.serial_at hserial.content hi
      obtain ⟨call, moved, -, hdone, -⟩ :=
        writer_returned hcalls hserial hreturned hwriters hpre hupdate
      exact ⟨moved, hdone⟩
    · rintro ⟨moved, hdone⟩
      obtain ⟨v, pre, post, hwriters, -⟩ := returned_wrote hcalls hserial hdone
      simp [hwriters]
  · have hstart := (caseInStep_run hfresh tenant caseId).path
    exact Cell.serial_invariant update_keeps_path hserial.content hstart
  · intro i moved d hdone hdefinition hterminal
    obtain ⟨v, pre, post, hwriters, hpre, hupdate⟩ := returned_wrote hcalls hserial hdone
    obtain ⟨c, hc, -, hreach⟩ := Cell.serial_invariant (update_keeps_reachable hdefinition)
      (hserial.since hwriters hpre hupdate) ⟨moved, rfl, rfl, .refl⟩
    exact ⟨c, hc, hreach⟩

namespace Demo

def movingTo (toState : String) : TransitionCall where
  args := {
    caseId := "case-1"
    tenant := "demo-bank"
    toState
    actor := "demo.agent"
    reason := "ok" }
  readings

end Demo

/-- The complaint is resolved, and a second call reads it once it has been written. -/
theorem demo_transitions_kept :
    TransitionsKept Demo.complaints (engineAfter Demo.complaints Demo.underReview) "demo-bank"
      "case-1"
      [Demo.movingTo "resolved", Demo.movingTo "closed"]
      (transitioning Demo.complaints (engineAfter Demo.complaints Demo.underReview)
        [Demo.movingTo "resolved", Demo.movingTo "closed"] [0, 0, 1, 0, 1, 0, 0, 0, 1, 1, 1, 1]) :=
  transitions_kept _ _ (by decide) _ _ _ (by decide) _ (by decide) (by decide)

/-- Two calls read the complaint before either has written it: the second write undoes the
resolution, and one of two successful transitions has no entry. -/
theorem transition_overwritten : ¬ ∀ (svc : CaseWorkflowService) (rs : List CaseRequest),
    Along (serveCase svc) FreshCase World.empty rs → ∀ (tenant caseId : String)
    (calls : List TransitionCall),
    (∀ call ∈ calls, call.args.tenant = tenant ∧ call.args.caseId = caseId) → ∀ is,
    (transitioning svc (engineAfter svc rs) calls is).finished = true →
    TransitionsKept svc (engineAfter svc rs) tenant caseId calls
      (transitioning svc (engineAfter svc rs) calls is) := by
  intro h
  have hkept := h Demo.complaints Demo.underReview (by decide) "demo-bank" "case-1"
    [Demo.movingTo "resolved", Demo.movingTo "awaiting_customer"] (by decide)
    [0, 1, 0, 1, 0, 0, 0, 0, 1, 1] (by decide)
  obtain ⟨order, entries, hnodup, hreturned, hentries, hhistory⟩ := hkept.entries
  have hfirst : 0 ∈ order := (hreturned 0).mpr ⟨_, rfl⟩
  have hsecond : 1 ∈ order := (hreturned 1).mpr ⟨_, rfl⟩
  have htwo : 2 ≤ order.length := by
    have hsub : [0, 1] ⊆ order := by simp [hfirst, hsecond]
    exact (List.subperm_of_subset (by decide) hsub).length_le
  have hbefore : (storedHistory ((engineAfter Demo.complaints Demo.underReview).getCase
      "demo-bank" "case-1")).length = 1 := by decide
  have hafter : (storedHistory ((transitioning Demo.complaints
      (engineAfter Demo.complaints Demo.underReview)
      [Demo.movingTo "resolved", Demo.movingTo "awaiting_customer"]
      [0, 1, 0, 1, 0, 0, 0, 0, 1, 1]).shared.getCase "demo-bank" "case-1")).length = 2 := by decide
  have hlength := congrArg List.length hhistory
  rw [List.length_append, hbefore, hafter, ← hentries.length_eq] at hlength
  omega

end ReviewConsole
