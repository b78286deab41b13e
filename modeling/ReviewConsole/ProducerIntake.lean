import ReviewConsole.IntakeStages

/-!
# Producer intake, exactly once

The store decides in one operation whether a source key is new. So whatever the order of the
operations, the first submission of a source key creates the item, every other one finds it as
far as it has been decided, and its submission is recorded once.
-/
namespace ReviewConsole
open PortPrograms GuardedRuns InterleavedPools RelyGuarantee Program

section
variable {σ : Type} {port : ReviewStorePort σ} {calls : List ConsoleRequest}
variable {r : ConsoleRequest} {s s' : σ} {a b : ReviewItem}

/-- The stores hold the same items of the tenant. -/
def AgreeOn (port : ReviewStorePort σ) (tenant : String) (s s' : σ) : Prop :=
  ∀ k : String × String, k.1 = tenant → port.item s k = port.item s' k

/-- An operation that a request of the tenant performs in this state. -/
def IntakeOp (port : ReviewStorePort σ) (tenant : String) (s : σ) : PortOp → Prop
  | .reviewPut a => a.tenant = tenant ∧
      a.request.sourceKey = ((port.item s a.key).map (fun b => b.request.sourceKey)).getD ""
  | .reviewPutIfAbsentBySourceKey a => a.tenant = tenant ∧ port.item s a.key = none
  | .reviewGet t _ => t = tenant
  | .record _ => True
  | _ => False

theorem Stage.intakeOp (hr : r.IsIntake) {op : PortOp} {next : op.Ret → Service ConsoleResponse}
    (h : Stage port r (.call op next) s) : IntakeOp port r.tenant s op := by
  cases h with
  | waiting hq hnew =>
    obtain ⟨console, call, readings⟩ := r
    cases call with
    | submit sub =>
      cases hq.trans (submit_program console sub readings)
      refine ⟨ConsoleService.newItem_tenant, ?_⟩
      rw [ConsoleService.newItem_key, hnew _ rfl, ConsoleService.newItem_sourceKey]
      exact hr
    | submitIdempotent sub =>
      obtain ⟨next', heq, -⟩ := submitIdempotent_program console sub readings
      cases hq.trans heq
      refine ⟨ConsoleService.newItem_tenant, ?_⟩
      rw [ConsoleService.newItem_key]
      exact hnew _ rfl
    | dispose d =>
      obtain ⟨next', heq, -⟩ := @dispose_program σ port console d readings
      cases hq.trans heq
      rfl
    | _ => exact hr.elim
  | recording sub a e hsub hkey hsource hq =>
    cases hq
    trivial
  | returned sub a hsub hq => cases hq
  | disposing hsub hq =>
    obtain ⟨hop, -⟩ := hq
    cases op with
    | reviewPut a =>
      obtain ⟨htenant, b, hb, hsource⟩ := hop
      refine ⟨htenant, ?_⟩
      rw [hb]
      exact hsource.symm
    | record e => trivial
    | _ => exact hop.elim

theorem find_agreeOn {tenant : String} (hs : Sound port calls s) (hs' : Sound port calls s')
    (h : AgreeOn port tenant s s') (sourceKey : String) :
    port.findBySourceKey s tenant sourceKey = port.findBySourceKey s' tenant sourceKey := by
  apply Option.ext
  intro a
  rw [port.find_spec _ _ _ _ hs.apart, port.find_spec _ _ _ _ hs'.apart]
  by_cases htenant : a.tenant = tenant
  · rw [h a.key htenant]
  · simp [htenant]

theorem AgreeOn.update {tenant : String} (h : AgreeOn port tenant s s') {t t' : σ}
    (ht : port.item t = Function.update (port.item s) a.key (some a))
    (ht' : port.item t' = Function.update (port.item s') a.key (some a)) :
    AgreeOn port tenant t t' := by
  intro k hk
  rw [ht, ht', Function.update_apply, Function.update_apply, h k hk]

/-- An operation for the tenant depends on the items of the tenant alone. -/
theorem IntakeOp.agreeOn {tenant : String} {op : PortOp} (hop : IntakeOp port tenant s op)
    (hs : Sound port calls s) (hs' : Sound port calls s') (h : AgreeOn port tenant s s') :
    (port.ports op s).1 = (port.ports op s').1 ∧
      AgreeOn port tenant (port.ports op s).2 (port.ports op s').2 := by
  cases op with
  | reviewPut a =>
    obtain ⟨htenant, hsource⟩ := hop
    obtain ⟨t, hput, hitem, -⟩ := port.put s a hsource
    obtain ⟨t', hput', hitem', -⟩ := port.put s' a (h a.key htenant ▸ hsource)
    rw [hput, hput']
    exact ⟨rfl, h.update hitem hitem'⟩
  | reviewPutIfAbsentBySourceKey a =>
    obtain ⟨htenant, hnew⟩ := hop
    have hfound := find_agreeOn hs hs' (htenant ▸ h) a.request.sourceKey
    cases hfind : port.findBySourceKey s a.tenant a.request.sourceKey with
    | some b =>
      rw [port.putIfAbsent_found s a b hfind, port.putIfAbsent_found s' a b (hfound ▸ hfind)]
      exact ⟨rfl, h⟩
    | none =>
      obtain ⟨t, hput, hitem, -⟩ := port.putIfAbsent_created s a hnew hfind
      obtain ⟨t', hput', hitem', -⟩ :=
        port.putIfAbsent_created s' a (h a.key htenant ▸ hnew) (hfound ▸ hfind)
      rw [hput, hput']
      exact ⟨rfl, h.update hitem hitem'⟩
  | reviewGet t id =>
    rw [port.get, port.get, h (t, id) hop]
    exact ⟨rfl, h⟩
  | record e =>
    obtain ⟨t, hrecord, hitem, -⟩ := port.record s e
    obtain ⟨t', hrecord', hitem', -⟩ := port.record s' e
    rw [hrecord, hrecord']
    refine ⟨rfl, fun k hk => ?_⟩
    rw [hitem, hitem']
    exact h k hk
  | _ => exact hop.elim

/-- Thread `i` submits under this source key of the tenant for a producer. -/
def Produces (calls : List ConsoleRequest) (tenant sourceKey : String) (i : ℕ) : Prop :=
  ∃ r sub, calls[i]? = some r ∧ r.call = .submitIdempotent sub ∧ sub.tenant = tenant ∧
    sub.sourceKey = sourceKey

def servesTenant (calls : List ConsoleRequest) (tenant : String) (i : ℕ) : Bool :=
  calls[i]?.any (fun r => r.tenant = tenant)

theorem servesTenant_iff {i : ℕ} {tenant : String} (hr : calls[i]? = some r) :
    servesTenant calls tenant i = true ↔ r.tenant = tenant := by simp [servesTenant, hr]

/-- Intake under one source key along a schedule. The items found under it at different times
have one key. A producer's request that has ended returned the item that the source key finds,
by its id. A request that comes when there is an item changes nothing and returns the item
with its approvals and its state. No submission changes an item. When every request has ended
the submission of the item has been recorded once. Without the requests of other tenants all
of this is the same. -/
structure ExactlyOnce (port : ReviewStorePort σ) (calls : List ConsoleRequest)
    (tenant sourceKey : String) (is : List ℕ) : Prop where
  one : ∀ pre mid, pre <+: mid → mid <+: is → ∀ k k' a b,
    port.item (intake port calls pre).shared k = some a →
    port.item (intake port calls mid).shared k' = some b →
    a.tenant = tenant → a.request.sourceKey = sourceKey →
    b.tenant = tenant → b.request.sourceKey = sourceKey → k = k'
  returned : ∀ pre, pre <+: is → ∀ i, Produces calls tenant sourceKey i → ∀ x,
    (intake port calls pre).threads[i]? = some (.ended x) → ∃ a b, x = .ok (.item a) ∧
      port.findBySourceKey (intake port calls pre).shared tenant sourceKey = some b ∧
      a.reviewId = b.reviewId
  retried : ∀ pre i, pre ++ [i] <+: is → Produces calls tenant sourceKey i → i ∉ pre → ∀ b,
    port.findBySourceKey (intake port calls pre).shared tenant sourceKey = some b →
    (intake port calls (pre ++ [i])).shared = (intake port calls pre).shared ∧
    ∃ a, (intake port calls (pre ++ [i])).threads[i]? = some (.ended (.ok (.item a))) ∧
      a.key = b.key ∧ a.approvals = b.approvals ∧ a.state = b.state ∧
      a.terminalReason = b.terminalReason
  kept : ∀ pre i r, pre ++ [i] <+: is → calls[i]? = some r → r.submission.isSome → ∀ k a,
    port.item (intake port calls pre).shared k = some a →
    port.item (intake port calls (pre ++ [i])).shared k = some a
  recorded : (intake port calls is).finished = true → ∀ b,
    port.findBySourceKey (intake port calls is).shared tenant sourceKey = some b →
    submitSignOffs (port.log (intake port calls is).shared) (tenant, b.reviewId) = 1
  independent : ∀ pre, pre <+: is →
    port.findBySourceKey (intake port calls pre).shared tenant sourceKey =
      port.findBySourceKey
        (intake port calls (pre.filter (servesTenant calls tenant))).shared tenant sourceKey ∧
    ∀ i, servesTenant calls tenant i = true → (intake port calls pre).threads[i]? =
      (intake port calls (pre.filter (servesTenant calls tenant))).threads[i]?

/-- A submission that has ended returned an item that is stored under its source key. -/
theorem Stage.ended {sub : Submission} {x : Except ServiceError ConsoleResponse}
    (h : Stage port r (.ended x) s) (hr : r.IsIntake) (hsub : r.submission = some sub) :
    ∃ a, x = .ok (.item a) ∧ a.tenant = sub.tenant ∧ a.request.sourceKey = sub.sourceKey ∧
      port.Stored s a ∧
      (a.key = (sub.tenant, sub.reviewId) ∧ submitSignOffs (port.log s) a.key = 1 ∨
        port.item s (sub.tenant, sub.reviewId) = none) := by
  cases h with
  | waiting hq hnew =>
    obtain ⟨console, call, readings⟩ := r
    cases call with
    | submit sub' =>
      have hcall := hq.trans (submit_program console sub' readings)
      cases x <;> cases hcall
    | submitIdempotent sub' =>
      obtain ⟨next, heq, -⟩ := submitIdempotent_program console sub' readings
      have hcall := hq.trans heq
      cases x <;> cases hcall
    | _ => cases hsub
  | recording sub' a e hsub' hkey hsource hq => cases x <;> cases hq
  | returned sub' a hsub' hq htenant hsource hstored hown =>
    cases hsub.symm.trans hsub'
    cases x with
    | error e => cases hq
    | ok response =>
      cases hq
      exact ⟨a, rfl, htenant, hsource, hstored, hown⟩
  | disposing hnone => cases hsub.symm.trans hnone

theorem producer_retries {console : ConsoleService} {sub : Submission}
    {readings : Readings} {op : PortOp} {next : op.Ret → Service ConsoleResponse}
    (hq : .call op next = (ConsoleRequest.mk console (.submitIdempotent sub) readings).program)
    (hfind : port.findBySourceKey s sub.tenant sub.sourceKey = some b) :
    (port.ports op s).2 = s ∧
      resume next (port.ports op s).1 = .done (.item (console.withEffectiveRouting b)) := by
  obtain ⟨next', heq, hfound, -⟩ := submitIdempotent_program console sub readings
  cases hq.trans heq
  rw [port.putIfAbsent_found s _ b (by simpa using hfind)]
  exact ⟨rfl, hfound b⟩

/-- A producer's request that comes when its source key is taken changes nothing, and returns
the item as far as it has been decided. -/
theorem intake_retried {tenant sourceKey : String} {pre : List ℕ} {i : ℕ}
    (hi : Produces calls tenant sourceKey i) (hnew : i ∉ pre)
    (hb : port.findBySourceKey (intake port calls pre).shared tenant sourceKey = some b) :
    (intake port calls (pre ++ [i])).shared = (intake port calls pre).shared ∧
    ∃ a, (intake port calls (pre ++ [i])).threads[i]? = some (.ended (.ok (.item a))) ∧
      a.key = b.key ∧ a.approvals = b.approvals ∧ a.state = b.state ∧
      a.terminalReason = b.terminalReason := by
  obtain ⟨⟨console, call, readings⟩, sub, hr, hcall, rfl, rfl⟩ := hi
  cases hcall
  obtain ⟨next, heq, -⟩ := submitIdempotent_program console sub readings
  have hthread : (intake port calls pre).threads[i]? =
      some (.call (.reviewPutIfAbsentBySourceKey (console.newItem sub readings.now)) next) := by
    rw [intake, Pool.run_unscheduled _ _ hnew, Pool.start, List.getElem?_map, hr, ← heq]
    rfl
  obtain ⟨hshared, hnext⟩ := producer_retries heq.symm hb
  rw [intake_snoc, Pool.step_self hthread, Pool.step_call hthread, hnext]
  refine ⟨hshared, console.withEffectiveRouting b, rfl, console.withEffectiveRouting_key b,
    console.withEffectiveRouting_approvals b, console.withEffectiveRouting_state b, ?_⟩
  rw [ConsoleService.withEffectiveRouting_eq]

section
variable {tenant sourceKey : String} (hcalls : ∀ r ∈ calls, r.IsIntake)
variable (hids : (calls.filterMap ConsoleRequest.newKey).Nodup)
include hcalls hids

theorem intake_stays {pre mid : List ℕ} (hpre : pre <+: mid) {k : String × String}
    (ha : port.item (intake port calls pre).shared k = some a) :
    ∃ c, port.item (intake port calls mid).shared k = some c ∧
      c.request.sourceKey = a.request.sourceKey := by
  have hstart := intake_start port calls hcalls hids
  refine hstart.between (R := fun s s' => ∀ k a, port.item s k = some a →
    ∃ c, port.item s' k = some c ∧ c.request.sourceKey = a.request.sourceKey)
    (fun s k a ha => ⟨a, ha, rfl⟩) ?_ ?_ hpre k a ha
  · intro s t u hst htu k a ha
    obtain ⟨c, hc, hsame⟩ := hst k a ha
    obtain ⟨d, hd, hsame'⟩ := htu k c hc
    exact ⟨d, hd, hsame'.trans hsame⟩
  · intro i s s' hg k a ha
    rcases hg with rfl | ⟨r, -, hg⟩
    · exact ⟨a, ha, rfl⟩
    · exact hg.stays k a ha

theorem intake_one (hkey : sourceKey ≠ "") {pre mid : List ℕ} (hpre : pre <+: mid)
    {k k' : String × String} (ha : port.item (intake port calls pre).shared k = some a)
    (hb : port.item (intake port calls mid).shared k' = some b) (hat : a.tenant = tenant)
    (has : a.request.sourceKey = sourceKey) (hbt : b.tenant = tenant)
    (hbs : b.request.sourceKey = sourceKey) : k = k' := by
  obtain ⟨c, hc, hsame⟩ := intake_stays hcalls hids hpre ha
  have hkc := port.item_key _ k c hc
  have hka := port.item_key _ k a ha
  have hct : c.tenant = tenant := (congrArg Prod.fst (hkc.trans hka.symm)).trans hat
  have hsource : SameSource c b :=
    ⟨hsame ▸ has ▸ hkey, hct.trans hbt.symm, (hsame.trans has).trans hbs.symm⟩
  have hcb := (intake_holds port calls hcalls hids mid).inv.apart k k' c b hc hb hsource
  rw [← hkc, hcb]
  exact port.item_key _ k' b hb

theorem intake_returned {is : List ℕ} {i : ℕ} (hi : Produces calls tenant sourceKey i)
    (hkey : sourceKey ≠ "") {x : Except ServiceError ConsoleResponse}
    (hx : (intake port calls is).threads[i]? = some (.ended x)) : ∃ a b, x = .ok (.item a) ∧
      port.findBySourceKey (intake port calls is).shared tenant sourceKey = some b ∧
      a.reviewId = b.reviewId := by
  obtain ⟨r, sub, hr, hcall, htenant, hsource⟩ := hi
  have hholds := intake_holds port calls hcalls hids is
  obtain ⟨r', hr', hstage⟩ := hholds.asserts i _ hx
  cases hr.symm.trans hr'
  have hsub : r.submission = some sub := by simp [ConsoleRequest.submission, hcall]
  obtain ⟨a, ha, hat, has, ⟨b, hb, hbs⟩, -⟩ :=
    hstage.ended (hcalls r (List.mem_of_getElem? hr)) hsub
  have hbkey := port.item_key _ _ b hb
  refine ⟨a, b, ha, ?_, (congrArg Prod.snd hbkey).symm⟩
  rw [port.find_spec _ _ _ _ hholds.inv.apart]
  refine ⟨hkey, by rw [hbkey]; exact hb, ?_, ?_⟩
  · exact ((congrArg Prod.fst hbkey).trans hat).trans htenant
  · exact (hbs.trans has).trans hsource

theorem intake_kept {pre : List ℕ} {i : ℕ} (hr : calls[i]? = some r) (hsub : r.submission.isSome)
    {k : String × String} (ha : port.item (intake port calls pre).shared k = some a) :
    port.item (intake port calls (pre ++ [i])).shared k = some a := by
  obtain ⟨-, hg⟩ := (intake_holds port calls hcalls hids pre).step i
  rw [← intake_snoc] at hg
  rcases hg with hsame | ⟨r', hr', hg⟩
  · rw [hsame]
    exact ha
  · cases hr.symm.trans hr'
    exact hg.submits hsub k a ha

theorem intake_recorded {is : List ℕ} (hend : (intake port calls is).finished = true)
    (hb : port.findBySourceKey (intake port calls is).shared tenant sourceKey = some b) :
    submitSignOffs (port.log (intake port calls is).shared) (tenant, b.reviewId) = 1 := by
  have hholds := intake_holds port calls hcalls hids is
  obtain ⟨-, hstored, htenant, -⟩ := (port.find_spec _ _ _ _ hholds.inv.apart).mp hb
  obtain ⟨r, hmem, hown⟩ := hholds.inv.submitted _ b hstored
  obtain ⟨sub, hsub, hsubKey⟩ := Option.map_eq_some_iff.mp hown
  obtain ⟨i, hi⟩ := List.mem_iff_getElem?.mp hmem
  have hlength : (intake port calls is).threads.length = calls.length :=
    (Pool.run_length port.ports _ is).trans (List.length_map _)
  have hlt : i < (intake port calls is).threads.length := by
    rw [hlength]
    exact (List.getElem?_eq_some_iff.mp hi).1
  have hthread := List.getElem?_eq_getElem hlt
  obtain ⟨x, hx⟩ := Pool.finished_thread hend hthread
  obtain ⟨r', hr', hstage⟩ := hholds.asserts i _ hthread
  cases hi.symm.trans hr'
  rw [hx] at hstage
  obtain ⟨a, -, -, -, -, ⟨hkey, hcount⟩ | hnone⟩ := hstage.ended (hcalls r hmem) hsub
  · rw [← htenant]
    change submitSignOffs _ b.key = 1
    rw [← hsubKey, ← hkey]
    exact hcount
  · rw [hsubKey, hstored] at hnone
    cases hnone

theorem intake_independent (is : List ℕ) :
    port.findBySourceKey (intake port calls is).shared tenant sourceKey =
      port.findBySourceKey
        (intake port calls (is.filter (servesTenant calls tenant))).shared tenant sourceKey ∧
    ∀ i, servesTenant calls tenant i = true → (intake port calls is).threads[i]? =
      (intake port calls (is.filter (servesTenant calls tenant))).threads[i]? := by
  have hstart := intake_start port calls hcalls hids
  have hown (i : ℕ) (op : PortOp) (next : op.Ret → Service ConsoleResponse) (s s' : σ)
      (hi : servesTenant calls tenant i = true) (hs : Sound port calls s)
      (hs' : Sound port calls s') (h : ∃ r, calls[i]? = some r ∧ Stage port r (.call op next) s)
      (hagree : AgreeOn port tenant s s') : (port.ports op s).1 = (port.ports op s').1 ∧
        AgreeOn port tenant (port.ports op s).2 (port.ports op s').2 := by
    obtain ⟨r, hr, hstage⟩ := h
    have hop := hstage.intakeOp (hcalls r (List.mem_of_getElem? hr))
    rw [(servesTenant_iff hr).mp hi] at hop
    exact hop.agreeOn hs hs' hagree
  have hother (i : ℕ) (s s' t : σ) (hi : servesTenant calls tenant i = false)
      (hg : s' = s ∨ ∃ r, calls[i]? = some r ∧ Guarantees port r s s')
      (hagree : AgreeOn port tenant s t) : AgreeOn port tenant s' t := by
    rcases hg with rfl | ⟨r, hr, hg⟩
    · exact hagree
    · have htenant : r.tenant ≠ tenant := by
        rw [ne_eq, ← servesTenant_iff hr, hi]
        exact Bool.false_ne_true
      intro k hk
      rw [hg.others k (fun he => htenant (he.symm.trans hk))]
      exact hagree k hk
  obtain ⟨hagree, hthreads⟩ :=
    hstart.filter
      (fun i op next s s' hi hs hs' h _ hagree => hown i op next s s' hi hs hs' h hagree)
      hother hstart (fun _ _ => rfl) (fun _ _ => rfl) is
  exact ⟨find_agreeOn (hstart.after is).inv (hstart.after _).inv hagree sourceKey, hthreads⟩

theorem exactlyOnce (hkey : sourceKey ≠ "") (is : List ℕ) :
    ExactlyOnce port calls tenant sourceKey is where
  one _ _ hpre _ _ _ _ _ ha hb hat has hbt hbs :=
    intake_one hcalls hids hkey hpre ha hb hat has hbt hbs
  returned _ _ _ hi _ hx := intake_returned hcalls hids hi hkey hx
  retried _ _ _ hi hnew _ hb := intake_retried hi hnew hb
  kept _ _ _ _ hr hsub _ _ ha := intake_kept hcalls hids hr hsub ha
  recorded hend _ hb := intake_recorded hcalls hids hend hb
  independent _ _ := intake_independent hcalls hids _

end

end

/-- Any number of submissions with ids of their own, and of dispositions, at the same time and
operation by operation over either store: producers' submissions are taken in exactly once for
each source key of each tenant. -/
theorem producer_intake_exactly_once (calls : List ConsoleRequest)
    (hcalls : ∀ r ∈ calls, r.IsIntake) (hids : (calls.filterMap ConsoleRequest.newKey).Nodup)
    (tenant sourceKey : String) (hkey : sourceKey ≠ "") (is : List ℕ) :
    ExactlyOnce localStorePort calls tenant sourceKey is ∧
      ExactlyOnce firestoreStorePort calls tenant sourceKey is :=
  ⟨exactlyOnce hcalls hids hkey is, exactlyOnce hcalls hids hkey is⟩

namespace Demo

def produced (reviewId tenant : String) : ConsoleRequest where
  service := console
  call := .submitIdempotent { submission .medium with reviewId, tenant, sourceKey := "dossier-1" }
  readings := readings

/-- A producer submits a dossier, retries, and submits one under the same key for another
tenant, while the first is approved. -/
def intakeCalls : List ConsoleRequest :=
  [produced "rev-1" "demo-bank", produced "rev-2" "demo-bank", produced "rev-3" "other-bank",
    approve]

end Demo

/-- The retry comes after the approval, the other tenant's dossier between the two. -/
theorem demo_intake_exactly_once :
    ExactlyOnce localStorePort Demo.intakeCalls "demo-bank" "dossier-1" [0, 3, 0, 2, 3, 3, 1, 2] ∧
      ExactlyOnce firestoreStorePort Demo.intakeCalls "demo-bank" "dossier-1"
        [0, 3, 0, 2, 3, 3, 1, 2] :=
  producer_intake_exactly_once Demo.intakeCalls (by decide) (by decide) "demo-bank" "dossier-1"
    (by decide) _

end ReviewConsole
