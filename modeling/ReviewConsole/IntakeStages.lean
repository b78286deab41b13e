import ReviewConsole.RelyGuarantee
import ReviewConsole.SourceKeyedStores
import ReviewConsole.TenantViews

/-!
# The stages of intake

Submissions and dispositions run at the same time over one store. For each request: the stages
it passes through, what it guarantees the others at each operation, and that its own stage
survives what they guarantee. Nothing removes an item, a disposition writes an item back under
the source key it has, and only its own submission creates and records an item.
-/
namespace ReviewConsole
open PortPrograms GuardedRuns InterleavedPools RelyGuarantee Program

namespace ConsoleRequest

def submission (r : ConsoleRequest) : Option Submission :=
  match r.call with
  | .submit s | .submitIdempotent s => some s
  | _ => none

/-- The key of the item that a submission may create. -/
def newKey (r : ConsoleRequest) : Option (String × String) :=
  r.submission.map (fun s => (s.tenant, s.reviewId))

/-- A submission by a person, who has no source key to give, by a producer, or a disposition. -/
def IsIntake (r : ConsoleRequest) : Prop :=
  match r.call with
  | .submit s => s.sourceKey = ""
  | .submitIdempotent _ | .dispose _ => True
  | _ => False

instance (r : ConsoleRequest) : Decidable r.IsIntake := by
  unfold IsIntake
  match r.call with
  | .submit _ => dsimp only; infer_instance
  | .submitIdempotent _ | .dispose _ => exact instDecidableTrue
  | .getBySourceKey _ _ | .listQueue _ | .listAll _ | .get _ _ => exact instDecidableFalse

end ConsoleRequest

/-- How often the submission of the item under this key has been recorded. -/
def submitSignOffs (log : List AuditEvent) (k : String × String) : ℕ :=
  log.countP (fun
    | .signOff e => e.action = "submit" ∧ (e.tenant, e.reviewId) = k
    | .caseAction _ => false)

theorem submitSignOffs_snoc (log : List AuditEvent) (e : SignOffEvent) (k : String × String) :
    submitSignOffs (log ++ [.signOff e]) k =
      submitSignOffs log k + if e.action = "submit" ∧ (e.tenant, e.reviewId) = k then 1 else 0 := by
  simp [submitSignOffs, List.countP_append, List.countP_cons]

section
variable {σ : Type} (port : ReviewStorePort σ)

/-- The requests run at the same time, from an empty store. -/
def intake (calls : List ConsoleRequest) (is : List ℕ) :
    Pool PortOp PortOp.Ret ServiceError ConsoleResponse σ :=
  run (Pool.step port.ports) (.start port.empty (calls.map ConsoleRequest.program)) is

theorem intake_snoc (calls : List ConsoleRequest) (is : List ℕ) (i : ℕ) :
    intake port calls (is ++ [i]) = (intake port calls is).step port.ports i := run_snoc _ _ _ _

/-- An item is stored under the key and the source key of this one. -/
def ReviewStorePort.Stored (s : σ) (a : ReviewItem) : Prop :=
  ∃ b, port.item s a.key = some b ∧ b.request.sourceKey = a.request.sourceKey

/-- What a disposition may still do once it has read its item. -/
def DisposesOf (tenant : String) (s : σ) : PortOp → Prop
  | .reviewPut a => a.tenant = tenant ∧ port.Stored s a
  | .record (.signOff e) => e.action ≠ "submit"
  | _ => False

/-- How far a request has come. -/
inductive Stage (r : ConsoleRequest) (q : Service ConsoleResponse) (s : σ) : Prop
  | waiting (hq : q = r.program) (hnew : ∀ k ∈ r.newKey, port.item s k = none)
  | recording (sub : Submission) (a : ReviewItem) (e : SignOffEvent)
      (hsub : r.submission = some sub) (hkey : a.key = (sub.tenant, sub.reviewId))
      (hsource : a.request.sourceKey = sub.sourceKey)
      (hq : q = .call (.record (.signOff e)) (fun _ => .done (.item a)))
      (he : e.action = "submit" ∧ (e.tenant, e.reviewId) = a.key)
      (hstored : port.Stored s a) (hcount : submitSignOffs (port.log s) a.key = 0)
  | returned (sub : Submission) (a : ReviewItem) (hsub : r.submission = some sub)
      (hq : q = .done (.item a)) (htenant : a.tenant = sub.tenant)
      (hsource : a.request.sourceKey = sub.sourceKey) (hstored : port.Stored s a)
      (hown : a.key = (sub.tenant, sub.reviewId) ∧ submitSignOffs (port.log s) a.key = 1 ∨
        port.item s (sub.tenant, sub.reviewId) = none)
  | disposing (hsub : r.submission = none) (hq : q.Only (DisposesOf port r.tenant s))

/-- Items have their source keys for themselves, every one was submitted by some request, and
no submission is recorded before its item is stored. -/
structure Sound (calls : List ConsoleRequest) (s : σ) : Prop where
  apart : SourcesApart (port.item s)
  submitted : ∀ k a, port.item s k = some a → ∃ r ∈ calls, r.newKey = some k
  unrecorded : ∀ k, port.item s k = none → submitSignOffs (port.log s) k = 0

/-- What a request guarantees the others: items stay, under their source keys; it creates and
records no item but its own; a submission changes no item, and nothing changes another
tenant's. -/
structure Guarantees (r : ConsoleRequest) (s s' : σ) : Prop where
  stays : ∀ k a, port.item s k = some a →
    ∃ b, port.item s' k = some b ∧ b.request.sourceKey = a.request.sourceKey
  creates : ∀ k, r.newKey ≠ some k → port.item s k = none → port.item s' k = none
  records : ∀ k, r.newKey ≠ some k →
    submitSignOffs (port.log s') k = submitSignOffs (port.log s) k
  submits : r.submission.isSome → ∀ k a, port.item s k = some a → port.item s' k = some a
  others : ∀ k, k.1 ≠ r.tenant → port.item s' k = port.item s k

variable {port} {calls : List ConsoleRequest} {r r' : ConsoleRequest} {s s' : σ}
variable {q : Service ConsoleResponse} {a b : ReviewItem}

theorem Guarantees.refl (r : ConsoleRequest) (s : σ) : Guarantees port r s s :=
  ⟨fun _ a h => ⟨a, h, rfl⟩, fun _ _ h => h, fun _ _ => rfl, fun _ _ _ h => h, fun _ _ => rfl⟩

theorem ReviewStorePort.Stored.of_guarantees (h : port.Stored s a) (hg : Guarantees port r s s') :
    port.Stored s' a := by
  obtain ⟨b, hb, hsource⟩ := h
  obtain ⟨c, hc, hsame⟩ := hg.stays _ b hb
  exact ⟨c, hc, hsame.trans hsource⟩

theorem disposesOf_guarantees {tenant : String} (hq : q.Only (DisposesOf port tenant s))
    (hg : Guarantees port r s s') : q.Only (DisposesOf port tenant s') := by
  refine Confined.mono (fun _ _ _ h => h) (fun op hop => ?_) (fun _ h => h) hq
  cases op with
  | reviewPut a => exact ⟨hop.1, hop.2.of_guarantees hg⟩
  | record e =>
    cases e with
    | signOff e => exact hop
    | caseAction e => exact hop.elim
  | _ => exact hop.elim

/-- What the others guarantee leaves a request at its stage. -/
theorem Stage.of_guarantees (h : Stage port r q s) (hg : Guarantees port r' s s')
    (hne : ∀ k, r.newKey = some k → r'.newKey ≠ some k) : Stage port r q s' := by
  cases h with
  | waiting hq hnew =>
    refine .waiting hq (fun k hk => ?_)
    exact hg.creates k (hne k hk) (hnew k hk)
  | recording sub a e hsub hkey hsource hq he hstored hcount =>
    have hnewKey : r.newKey = some a.key := by rw [hkey, ConsoleRequest.newKey, hsub]; rfl
    refine .recording sub a e hsub hkey hsource hq he (hstored.of_guarantees hg) ?_
    rw [hg.records _ (hne _ hnewKey)]
    exact hcount
  | returned sub a hsub hq htenant hsource hstored hown =>
    have hnewKey : r.newKey = some (sub.tenant, sub.reviewId) := by
      rw [ConsoleRequest.newKey, hsub]
      rfl
    refine .returned sub a hsub hq htenant hsource (hstored.of_guarantees hg) ?_
    rcases hown with ⟨hkey, hcount⟩ | hnone
    · rw [hg.records _ (hkey ▸ hne _ hnewKey)]
      exact Or.inl ⟨hkey, hcount⟩
    · exact Or.inr (hg.creates _ (hne _ hnewKey) hnone)
  | disposing hsub hq => exact .disposing hsub (disposesOf_guarantees hq hg)

theorem Sound.created (hs : Sound port calls s) (hmem : r ∈ calls) (hown : r.newKey = some a.key)
    (hfree : port.findBySourceKey s a.tenant a.request.sourceKey = none)
    (hitem : port.item s' = Function.update (port.item s) a.key (some a))
    (hlog : port.log s' = port.log s) : Sound port calls s' where
  apart := by
    rw [hitem]
    refine hs.apart.update (port.item_key s) (fun k b hb hsame => ?_)
    have hfound := (port.find_spec s a.tenant a.request.sourceKey b hs.apart).mpr
      ⟨hsame.1, by rw [port.item_key s k b hb]; exact hb, hsame.2.1.symm, hsame.2.2.symm⟩
    rw [hfree] at hfound
    cases hfound
  submitted k b hb := by
    rw [hitem, Function.update_apply] at hb
    split at hb
    · rename_i hk
      exact ⟨r, hmem, by rw [hk]; exact hown⟩
    · exact hs.submitted k b hb
  unrecorded k hk := by
    rw [hitem, Function.update_apply] at hk
    split at hk
    · cases hk
    · rw [hlog]
      exact hs.unrecorded k hk

theorem Guarantees.created (hown : r.newKey = some a.key) (htenant : a.tenant = r.tenant)
    (hfree : port.item s a.key = none)
    (hitem : port.item s' = Function.update (port.item s) a.key (some a))
    (hlog : port.log s' = port.log s) : Guarantees port r s s' := by
  have hold (k : String × String) (b : ReviewItem) (hb : port.item s k = some b) :
      port.item s' k = some b := by
    rw [hitem, Function.update_of_ne]
    · exact hb
    · rintro rfl
      rw [hfree] at hb
      cases hb
  refine ⟨fun k b hb => ⟨b, hold k b hb, rfl⟩, ?_, fun _ _ => by rw [hlog], fun _ => hold, ?_⟩
  · intro k hk hnone
    rw [hitem, Function.update_of_ne]
    · exact hnone
    · rintro rfl
      exact hk hown
  · intro k hk
    rw [hitem, Function.update_of_ne]
    rintro rfl
    exact hk htenant

theorem Sound.rewritten (hs : Sound port calls s) (hstored : port.Stored s a)
    (hitem : port.item s' = Function.update (port.item s) a.key (some a))
    (hlog : port.log s' = port.log s) : Sound port calls s' := by
  obtain ⟨b, hb, hsource⟩ := hstored
  have hkey := port.item_key s _ b hb
  refine ⟨?_, ?_, ?_⟩
  · rw [hitem]
    refine hs.apart.update (port.item_key s) (fun k c hc hsame => ?_)
    have htenant : b.tenant = a.tenant := congrArg Prod.fst hkey
    have hbc : SameSource b c :=
      ⟨hsource ▸ hsame.1, htenant.trans hsame.2.1, hsource.trans hsame.2.2⟩
    rw [← hs.apart _ _ b c hb hc hbc]
    exact hkey
  · intro k c hc
    rw [hitem, Function.update_apply] at hc
    split at hc
    · rename_i hk
      exact hs.submitted k b (hk ▸ hb)
    · exact hs.submitted k c hc
  · intro k hk
    rw [hitem, Function.update_apply] at hk
    split at hk
    · cases hk
    · rw [hlog]
      exact hs.unrecorded k hk

theorem Guarantees.rewritten (hsub : r.submission = none) (htenant : a.tenant = r.tenant)
    (hstored : port.Stored s a)
    (hitem : port.item s' = Function.update (port.item s) a.key (some a))
    (hlog : port.log s' = port.log s) : Guarantees port r s s' := by
  obtain ⟨b, hb, hsource⟩ := hstored
  refine ⟨?_, ?_, fun _ _ => by rw [hlog], by simp [hsub], ?_⟩
  · intro k c hc
    rw [hitem, Function.update_apply]
    split
    · rename_i hk
      rw [hk, hb] at hc
      cases hc
      exact ⟨a, rfl, hsource.symm⟩
    · exact ⟨c, hc, rfl⟩
  · intro k _ hnone
    rw [hitem, Function.update_of_ne]
    · exact hnone
    · rintro rfl
      rw [hb] at hnone
      cases hnone
  · intro k hk
    rw [hitem, Function.update_of_ne]
    rintro rfl
    exact hk htenant

theorem Guarantees.recorded {e : SignOffEvent}
    (he : e.action = "submit" → r.newKey = some (e.tenant, e.reviewId))
    (hitem : port.item s' = port.item s) (hlog : port.log s' = port.log s ++ [.signOff e]) :
    Guarantees port r s s' := by
  refine ⟨fun k b hb => ⟨b, by rw [hitem]; exact hb, rfl⟩, fun k _ hk => by rw [hitem]; exact hk,
    ?_, fun _ k b hb => by rw [hitem]; exact hb, fun k _ => by rw [hitem]⟩
  intro k hk
  rw [hlog, submitSignOffs_snoc, if_neg]
  · rfl
  · rintro ⟨haction, rfl⟩
    exact hk (he haction)

theorem Sound.recorded {e : SignOffEvent} (hs : Sound port calls s)
    (he : e.action = "submit" → port.item s (e.tenant, e.reviewId) ≠ none)
    (hitem : port.item s' = port.item s) (hlog : port.log s' = port.log s ++ [.signOff e]) :
    Sound port calls s' := by
  refine ⟨by rw [hitem]; exact hs.apart, by rw [hitem]; exact hs.submitted, ?_⟩
  intro k hk
  rw [hitem] at hk
  rw [hlog, submitSignOffs_snoc, hs.unrecorded k hk, if_neg]
  rintro ⟨haction, rfl⟩
  exact he haction hk

/-- The rest of a submission whose item the store has taken in. -/
def recordingProgram (console : ConsoleService) (a : ReviewItem) (timestamp : DateTime) :
    Service ConsoleResponse :=
  .call (.record (.signOff (console.submitEvent a timestamp))) (fun _ => .done (.item a))

theorem submit_program (console : ConsoleService) (sub : Submission) (readings : Readings) :
    (ConsoleRequest.mk console (.submit sub) readings).program =
      .call (.reviewPut (console.newItem sub readings.now))
        (fun _ => recordingProgram console (console.newItem sub readings.now) readings.timestamp) :=
  rfl

/-- A producer's submission puts its item in, and records the submission if it was created. -/
theorem submitIdempotent_program (console : ConsoleService) (sub : Submission)
    (readings : Readings) : ∃ next : ReviewItem × Bool → Service ConsoleResponse,
    (ConsoleRequest.mk console (.submitIdempotent sub) readings).program =
      .call (.reviewPutIfAbsentBySourceKey (console.newItem sub readings.now)) next ∧
    (∀ b, next (b, false) = .done (.item (console.withEffectiveRouting b))) ∧
    next (console.newItem sub readings.now, true) =
      recordingProgram console (console.newItem sub readings.now) readings.timestamp := by
  refine ⟨_, rfl, fun _ => rfl, ?_⟩
  change recordingProgram console (console.withEffectiveRouting _) readings.timestamp = _
  rw [ConsoleService.withEffectiveRouting_newItem]

/-- A disposition reads its item and then does to it only what a disposition does. -/
theorem dispose_program (console : ConsoleService) (d : DisposeArgs) (readings : Readings) :
    ∃ next : Option ReviewItem → Service ConsoleResponse,
      (ConsoleRequest.mk console (.dispose d) readings).program =
        .call (.reviewGet d.checkerTenant d.reviewId) next ∧
      ∀ s, (next (port.item s (d.checkerTenant, d.reviewId))).Only
        (DisposesOf port d.checkerTenant s) := by
  obtain ⟨next, heq, hnone, hsome⟩ := dispose_call console d readings
  refine ⟨fun found => next found >>= fun outcome => pure (.outcome outcome), ?_, ?_⟩
  · simp only [ConsoleRequest.program, heq]
    rfl
  · intro s
    refine Only.bind ?_ (fun _ => only_pure _)
    cases hget : port.item s (d.checkerTenant, d.reviewId) with
    | none =>
      rw [hnone]
      exact only_raise _
    | some b =>
      have hkey := port.item_key s _ b hget
      have htenant : b.tenant = d.checkerTenant := congrArg Prod.fst hkey
      refine hsome b _ htenant (fun a ha hsource => ?_) (fun e he _ => ?_)
      · refine ⟨(congrArg Prod.fst ha).trans htenant, b, ?_, hsource.symm⟩
        rw [ha, hkey]
        exact hget
      · change e.action ≠ "submit"
        simp [he]

/-- What one operation of a request leaves: a sound store, the request at its next stage, and
what it guarantees the others. -/
structure Advances (port : ReviewStorePort σ) (calls : List ConsoleRequest) (r : ConsoleRequest)
    (s : σ) (q' : Service ConsoleResponse) (s' : σ) : Prop where
  sound : Sound port calls s'
  stage : Stage port r q' s'
  guarantees : Guarantees port r s s'

theorem advances_created (hs : Sound port calls s) (hmem : r ∈ calls) {sub : Submission}
    (hsub : r.submission = some sub) (console : ConsoleService) (readings : Readings)
    (ha : a = console.newItem sub readings.now) (hnew : port.item s a.key = none)
    (hfree : port.findBySourceKey s a.tenant a.request.sourceKey = none)
    (hitem : port.item s' = Function.update (port.item s) a.key (some a))
    (hlog : port.log s' = port.log s) :
    Advances port calls r s (recordingProgram console a readings.timestamp) s' := by
  have hkey : a.key = (sub.tenant, sub.reviewId) := by
    rw [ha]
    exact ConsoleService.newItem_key
  have hown : r.newKey = some a.key := by
    rw [ConsoleRequest.newKey, hsub, hkey]
    rfl
  have htenant : a.tenant = r.tenant := by
    obtain ⟨console', call, readings'⟩ := r
    cases call <;> cases hsub <;> exact congrArg Prod.fst hkey
  have hstored : port.item s' a.key = some a := by rw [hitem, Function.update_self]
  refine ⟨hs.created hmem hown hfree hitem hlog, ?_, .created hown htenant hnew hitem hlog⟩
  refine .recording sub a (console.submitEvent a readings.timestamp) hsub hkey ?_ rfl ⟨rfl, rfl⟩
    ⟨a, hstored, rfl⟩ ?_
  · rw [ha, ConsoleService.newItem_sourceKey]
  · rw [hlog]
    exact hs.unrecorded _ hnew

theorem advances_found (hs : Sound port calls s) {sub : Submission}
    (hsub : r.submission = some sub) (hnew : ∀ k ∈ r.newKey, port.item s k = none)
    (console : ConsoleService)
    (hfind : port.findBySourceKey s sub.tenant sub.sourceKey = some b) :
    Advances port calls r s (.done (.item (console.withEffectiveRouting b))) s := by
  obtain ⟨-, hb, htenant, hsource⟩ := (port.find_spec _ _ _ _ hs.apart).mp hfind
  have hown : r.newKey = some (sub.tenant, sub.reviewId) := by
    rw [ConsoleRequest.newKey, hsub]
    rfl
  refine ⟨hs, .returned sub (console.withEffectiveRouting b) hsub rfl ?_ ?_ ?_ ?_, .refl r s⟩
  · rw [← htenant]
    exact congrArg Prod.fst (console.withEffectiveRouting_key b)
  · rw [ConsoleService.withEffectiveRouting_sourceKey]
    exact hsource
  · exact ⟨b, by rw [ConsoleService.withEffectiveRouting_key]; exact hb, by simp⟩
  · exact Or.inr (hnew _ hown)

theorem advances_waiting (hs : Sound port calls s) (hmem : r ∈ calls) (hr : r.IsIntake)
    (hnew : ∀ k ∈ r.newKey, port.item s k = none) {op : PortOp}
    {next : op.Ret → Service ConsoleResponse} (hq : .call op next = r.program) :
    Advances port calls r s (resume next (port.ports op s).1) (port.ports op s).2 := by
  obtain ⟨console, call, readings⟩ := r
  have hkey {sub : Submission} : (console.newItem sub readings.now).key =
      (sub.tenant, sub.reviewId) := ConsoleService.newItem_key
  cases call with
  | submit sub =>
    cases hq.trans (submit_program console sub readings)
    have hfresh : port.item s (console.newItem sub readings.now).key = none := hkey ▸ hnew _ rfl
    have hsource : (console.newItem sub readings.now).request.sourceKey = "" :=
      ConsoleService.newItem_sourceKey.trans hr
    have hfree : port.findBySourceKey s (console.newItem sub readings.now).tenant
        (console.newItem sub readings.now).request.sourceKey = none := by
      rw [hsource, Option.eq_none_iff_forall_ne_some]
      intro b hb
      exact ((port.find_spec _ _ _ _ hs.apart).mp hb).1 rfl
    obtain ⟨s', hput, hitem, hlog⟩ := port.put s (console.newItem sub readings.now)
      (by rw [hfresh]; exact hsource)
    rw [hput]
    exact advances_created hs hmem rfl console readings rfl hfresh hfree hitem hlog
  | submitIdempotent sub =>
    obtain ⟨next', heq, hfound, hcreated⟩ := submitIdempotent_program console sub readings
    cases hq.trans heq
    have hfresh : port.item s (console.newItem sub readings.now).key = none := hkey ▸ hnew _ rfl
    cases hfind : port.findBySourceKey s (console.newItem sub readings.now).tenant
        (console.newItem sub readings.now).request.sourceKey with
    | some b =>
      rw [port.putIfAbsent_found s _ b hfind]
      change Advances port calls _ s (next' (b, false)) s
      rw [hfound]
      rw [ConsoleService.newItem_tenant, ConsoleService.newItem_sourceKey] at hfind
      exact advances_found hs rfl hnew console hfind
    | none =>
      obtain ⟨s', hput, hitem, hlog⟩ := port.putIfAbsent_created s _ hfresh hfind
      rw [hput]
      change Advances port calls _ s (next' (_, true)) s'
      rw [hcreated]
      exact advances_created hs hmem rfl console readings rfl hfresh hfind hitem hlog
  | dispose d =>
    obtain ⟨next', heq, honly⟩ := @dispose_program σ port console d readings
    cases hq.trans heq
    rw [port.get]
    exact ⟨hs, .disposing rfl (honly s), .refl _ s⟩
  | _ => exact hr.elim

theorem advances_recording (hs : Sound port calls s) {sub : Submission} {e : SignOffEvent}
    (hsub : r.submission = some sub) (hkey : a.key = (sub.tenant, sub.reviewId))
    (hsource : a.request.sourceKey = sub.sourceKey)
    (he : e.action = "submit" ∧ (e.tenant, e.reviewId) = a.key) (hstored : port.Stored s a)
    (hcount : submitSignOffs (port.log s) a.key = 0) :
    ∃ s', port.ports (.record (.signOff e)) s = (.ok (), s') ∧
      Advances port calls r s (.done (.item a)) s' := by
  obtain ⟨s', hrecord, hitem, hlog⟩ := port.record s (.signOff e)
  have hg : Guarantees port r s s' := by
    refine .recorded (fun _ => ?_) hitem hlog
    rw [ConsoleRequest.newKey, hsub, he.2, hkey]
    rfl
  refine ⟨s', hrecord, hs.recorded (fun _ => ?_) hitem hlog, ?_, hg⟩
  · obtain ⟨b, hb, -⟩ := hstored
    rw [he.2, hb]
    exact Option.some_ne_none b
  · refine .returned sub a hsub rfl (congrArg Prod.fst hkey) hsource (hstored.of_guarantees hg) ?_
    rw [hlog, submitSignOffs_snoc, hcount, if_pos he]
    exact Or.inl ⟨hkey, rfl⟩

theorem advances_disposing (hs : Sound port calls s) (hsub : r.submission = none) {op : PortOp}
    {next : op.Ret → Service ConsoleResponse}
    (hq : (Program.call op next).Only (DisposesOf port r.tenant s)) :
    Advances port calls r s (resume next (port.ports op s).1) (port.ports op s).2 := by
  obtain ⟨hop, hnext⟩ := hq
  cases op with
  | reviewPut a =>
    obtain ⟨htenant, hstored⟩ := hop
    obtain ⟨b, hb, hsource⟩ := id hstored
    obtain ⟨s', hput, hitem, hlog⟩ := port.put s a (by rw [hb]; exact hsource.symm)
    have hg : Guarantees port r s s' := .rewritten hsub htenant hstored hitem hlog
    rw [hput]
    exact ⟨hs.rewritten hstored hitem hlog,
      .disposing hsub (disposesOf_guarantees (hnext () trivial) hg), hg⟩
  | record e =>
    cases e with
    | signOff e =>
      obtain ⟨s', hrecord, hitem, hlog⟩ := port.record s (.signOff e)
      have hg : Guarantees port r s s' := .recorded (fun he => absurd he hop) hitem hlog
      rw [hrecord]
      exact ⟨hs.recorded (fun he => absurd he hop) hitem hlog,
        .disposing hsub (disposesOf_guarantees (hnext () trivial) hg), hg⟩
    | caseAction e => exact hop.elim
  | _ => exact hop.elim

theorem Stage.advances (hs : Sound port calls s) (hmem : r ∈ calls) (hr : r.IsIntake)
    {op : PortOp} {next : op.Ret → Service ConsoleResponse}
    (h : Stage port r (.call op next) s) :
    Advances port calls r s (resume next (port.ports op s).1) (port.ports op s).2 := by
  cases h with
  | waiting hq hnew => exact advances_waiting hs hmem hr hnew hq
  | recording sub a e hsub hkey hsource hq he hstored hcount =>
    cases hq
    obtain ⟨s', hrecord, hadvances⟩ := advances_recording hs hsub hkey hsource he hstored hcount
    rw [hrecord]
    exact hadvances
  | returned sub a hsub hq => cases hq
  | disposing hsub hq => exact advances_disposing hs hsub hq

theorem newKey_ne (hids : (calls.filterMap ConsoleRequest.newKey).Nodup) {i j : ℕ} (hij : i ≠ j)
    (hi : calls[i]? = some r) (hj : calls[j]? = some r') {k : String × String}
    (hk : r.newKey = some k) : r'.newKey ≠ some k := by
  have hpairs := List.pairwise_iff_getElem.mp (List.pairwise_filterMap.mp hids)
  obtain ⟨hil, hir⟩ := List.getElem?_eq_some_iff.mp hi
  obtain ⟨hjl, hjr⟩ := List.getElem?_eq_some_iff.mp hj
  intro hk'
  rcases Nat.lt_or_gt_of_ne hij with hlt | hlt
  · exact hpairs i j hil hjl hlt k (hir ▸ hk) k (hjr ▸ hk') rfl
  · exact hpairs j i hjl hil hlt k (hjr ▸ hk') k (hir ▸ hk) rfl

/-- The proof outline of intake. -/
def intakeOutline (port : ReviewStorePort σ) (calls : List ConsoleRequest)
    (hcalls : ∀ r ∈ calls, r.IsIntake) (hids : (calls.filterMap ConsoleRequest.newKey).Nodup) :
    Outline port.ports ConsoleResponse where
  inv := Sound port calls
  asserts i q s := ∃ r, calls[i]? = some r ∧ Stage port r q s
  guarantee i s s' := s' = s ∨ ∃ r, calls[i]? = some r ∧ Guarantees port r s s'
  guarantee_refl i s := Or.inl rfl
  step i op next s hs h := by
    obtain ⟨r, hr, hstage⟩ := h
    have hmem := List.mem_of_getElem? hr
    obtain ⟨hsound, hnext, hg⟩ := hstage.advances hs hmem (hcalls r hmem)
    exact ⟨hsound, ⟨r, hr, hnext⟩, Or.inr ⟨r, hr, hg⟩⟩
  stable i j q s s' hij hg h := by
    obtain ⟨r, hr, hstage⟩ := h
    rcases hg with rfl | ⟨r', hr', hg⟩
    · exact ⟨r, hr, hstage⟩
    · exact ⟨r, hr, hstage.of_guarantees hg (fun k hk => newKey_ne hids (Ne.symm hij) hr hr' hk)⟩

theorem sound_empty (port : ReviewStorePort σ) (calls : List ConsoleRequest) :
    Sound port calls port.empty where
  apart k k' a b ha := by
    rw [port.item_empty] at ha
    cases ha
  submitted k a ha := by
    rw [port.item_empty] at ha
    cases ha
  unrecorded k _ := by
    rw [port.log_empty]
    rfl

theorem intake_start (port : ReviewStorePort σ) (calls : List ConsoleRequest)
    (hcalls : ∀ r ∈ calls, r.IsIntake) (hids : (calls.filterMap ConsoleRequest.newKey).Nodup) :
    (intakeOutline port calls hcalls hids).Holds
      (.start port.empty (calls.map ConsoleRequest.program)) where
  inv := sound_empty port calls
  asserts i q hq := by
    rw [Pool.start, List.getElem?_map] at hq
    obtain ⟨r, hr, rfl⟩ := Option.map_eq_some_iff.mp hq
    exact ⟨r, hr, .waiting rfl (fun k _ => port.item_empty k)⟩

theorem intake_holds (port : ReviewStorePort σ) (calls : List ConsoleRequest)
    (hcalls : ∀ r ∈ calls, r.IsIntake) (hids : (calls.filterMap ConsoleRequest.newKey).Nodup)
    (is : List ℕ) : (intakeOutline port calls hcalls hids).Holds (intake port calls is) :=
  (intake_start port calls hcalls hids).after is

end
end ReviewConsole
