import ReviewConsole.PortPrograms
import ReviewConsole.KeyedTables
import ReviewConsole.CaseAssessments
import Mathlib.Data.List.Sort

/-!
# The ports and their local adapters

The operations through which the two services reach their stores, timers, event bus and
audit sink, and what the local adapters do on each of them. The review table carries its
partial unique index as a field, so a table that breaks it cannot be built.
-/
namespace ReviewConsole
open PortPrograms KeyedTables

/-- What a service call can raise. -/
inductive ServiceError where
  | reviewNotFound (reviewId : String)
  | alreadyResolved (message : String)
  | unknownWorkflow (caseType : String)
  | caseNotFound (caseId : String)
  | illegalTransition (fromState toState : String)
  | clock (e : ClockError)
  | integrityError
  | portFailure
  deriving DecidableEq, Repr

/-- Any already-redacted record the audit sink accepts. -/
inductive AuditEvent where
  | signOff (event : SignOffEvent)
  | caseAction (event : CaseAuditEvent)
  deriving DecidableEq, Repr

structure PublishedEvent where
  eventType : String
  tenant : String
  caseId : String
  attributes : List (String × String)
  deriving DecidableEq, Repr

structure Timer where
  tenant : String
  caseId : String
  clock : String
  fireAt : DateTime
  deriving DecidableEq, Repr

def Timer.key (t : Timer) : String × String × String := (t.tenant, t.caseId, t.clock)

/-- The operations of the six ports. -/
inductive PortOp where
  | reviewPut (item : ReviewItem)
  | reviewPutIfAbsentBySourceKey (item : ReviewItem)
  | reviewGet (tenant reviewId : String)
  | reviewFindBySourceKey (tenant sourceKey : String)
  | reviewListPending (tenant : String)
  | reviewListAll (tenant : String)
  | casePut (c : Case)
  | caseGet (tenant caseId : String)
  | caseListByTenant (tenant : String)
  | timerSchedule (timer : Timer)
  | timerCancel (tenant caseId clock : String)
  | publish (event : PublishedEvent)
  | record (event : AuditEvent)

@[reducible] def PortOp.Ret : PortOp → Type
  | .reviewPut _ => Unit
  | .reviewPutIfAbsentBySourceKey _ => ReviewItem × Bool
  | .reviewGet _ _ => Option ReviewItem
  | .reviewFindBySourceKey _ _ => Option ReviewItem
  | .reviewListPending _ => List ReviewItem
  | .reviewListAll _ => List ReviewItem
  | .casePut _ => Unit
  | .caseGet _ _ => Option Case
  | .caseListByTenant _ => List Case
  | .timerSchedule _ => Unit
  | .timerCancel _ _ _ => Unit
  | .publish _ => Unit
  | .record _ => Unit

/-- The readings of `utcnow()` during one service call: for the artifact or decision, and for
the audit event. -/
structure Readings where
  now : DateTime
  timestamp : DateTime
  deriving DecidableEq, Repr

abbrev Service (α : Type) := Program PortOp PortOp.Ret ServiceError α

def port (op : PortOp) : Service op.Ret := Program.perform op

/-- Two rows the partial unique index `(tenant, source_key) WHERE source_key <> ''` keeps
apart. -/
def SameSource (a b : ReviewItem) : Prop :=
  a.request.sourceKey ≠ "" ∧ a.tenant = b.tenant ∧ a.request.sourceKey = b.request.sourceKey

instance (a b : ReviewItem) : Decidable (SameSource a b) := by
  unfold SameSource
  infer_instance

theorem SameSource.symm {a b : ReviewItem} (h : SameSource a b) : SameSource b a :=
  ⟨h.2.2 ▸ h.1, h.2.1.symm, h.2.2.symm⟩

/-- The `reviews` table: rows under `(tenant, review_id)` and the partial unique index. -/
structure LocalReviewStore where
  table : KeyedTable ReviewItem.key
  sourceUnique : ∀ a ∈ table.rows, ∀ b ∈ table.rows, SameSource a b → a = b

namespace LocalReviewStore

def empty : LocalReviewStore := ⟨.empty, by simp [KeyedTable.empty]⟩

/-- Another row already holds the item's source key. -/
def SourceTaken (store : LocalReviewStore) (item : ReviewItem) : Prop :=
  ∃ row ∈ store.table.rows, row.key ≠ item.key ∧ SameSource item row

instance (store : LocalReviewStore) (item : ReviewItem) : Decidable (store.SourceTaken item) := by
  unfold SourceTaken
  infer_instance

private theorem upsert_sourceUnique {store : LocalReviewStore} {item : ReviewItem}
    (h : ¬ store.SourceTaken item) :
    ∀ a ∈ (store.table.upsert item).rows, ∀ b ∈ (store.table.upsert item).rows,
      SameSource a b → a = b := by
  intro a ha b hb hab
  rcases KeyedTable.mem_upsert.mp ha with rfl | ⟨ha', hka⟩
  · rcases KeyedTable.mem_upsert.mp hb with rfl | ⟨hb', hkb⟩
    · rfl
    · exact absurd ⟨b, hb', hkb, hab⟩ h
  · rcases KeyedTable.mem_upsert.mp hb with rfl | ⟨hb', hkb⟩
    · exact absurd ⟨a, ha', hka, hab.symm⟩ h
    · exact store.sourceUnique a ha' b hb' hab

/-- `INSERT ... ON CONFLICT (tenant, review_id) DO UPDATE`; the partial unique index makes
it raise when another row holds the source key. -/
def put (store : LocalReviewStore) (item : ReviewItem) : Except ServiceError LocalReviewStore :=
  if h : store.SourceTaken item then .error .integrityError
  else .ok ⟨store.table.upsert item, upsert_sourceUnique h⟩

def get (store : LocalReviewStore) (tenant reviewId : String) : Option ReviewItem :=
  store.table.find? (tenant, reviewId)

def findBySourceKey (store : LocalReviewStore) (tenant sourceKey : String) : Option ReviewItem :=
  if sourceKey = "" then none
  else store.table.rows.find? (fun row => row.tenant = tenant ∧ row.request.sourceKey = sourceKey)

/-- `INSERT ... ON CONFLICT (tenant, source_key) DO NOTHING`, then the row that is there. A
used review id is a primary-key conflict and raises. -/
def putIfAbsentBySourceKey (store : LocalReviewStore) (item : ReviewItem) :
    Except ServiceError ((ReviewItem × Bool) × LocalReviewStore) :=
  if item.request.sourceKey = "" then (store.put item).map (fun s => ((item, true), s))
  else match store.findBySourceKey item.tenant item.request.sourceKey with
    | some row => .ok ((row, false), store)
    | none =>
      if (store.get item.tenant item.reviewId).isSome then .error .integrityError
      else (store.put item).map (fun s => ((item, true), s))

/-- `ORDER BY submitted_at ASC, review_id ASC`, both as text. -/
def listAll (store : LocalReviewStore) (tenant : String) : List ReviewItem :=
  (store.table.rows.filter (fun row => row.tenant = tenant)).insertionSort (fun a b =>
    a.request.submittedAt.isoformat < b.request.submittedAt.isoformat ∨
    (a.request.submittedAt.isoformat = b.request.submittedAt.isoformat ∧ ¬ b.reviewId < a.reviewId))

def listPending (store : LocalReviewStore) (tenant : String) : List ReviewItem :=
  (store.listAll tenant).filter (fun item => !item.isTerminal)

variable {store store' : LocalReviewStore} {item : ReviewItem} {tenant reviewId : String}

@[ext] theorem ext {a b : LocalReviewStore} (h : a.table = b.table) : a = b := by
  cases a; cases b; cases h; rfl

@[simp] theorem get_empty : empty.get tenant reviewId = none := rfl

theorem key_of_get (h : store.get tenant reviewId = some item) :
    item.tenant = tenant ∧ item.reviewId = reviewId := by
  have hkey : item.key = (tenant, reviewId) := KeyedTable.key_of_find? h
  exact Prod.ext_iff.mp hkey

theorem mem_of_get (h : store.get tenant reviewId = some item) : item ∈ store.table.rows :=
  KeyedTable.mem_of_find? h

theorem get_of_mem (h : item ∈ store.table.rows) :
    store.get item.tenant item.reviewId = some item :=
  KeyedTable.find?_of_mem h

theorem put_ok_iff : (∃ store', store.put item = .ok store') ↔ ¬ store.SourceTaken item := by
  simp only [put]
  by_cases h : store.SourceTaken item <;> simp [h]

theorem put_table (h : store.put item = .ok store') : store'.table = store.table.upsert item := by
  simp only [put] at h
  split at h
  · cases h
  · cases h
    rfl

theorem get_put (h : store.put item = .ok store') (t r : String) :
    store'.get t r = if (t, r) = item.key then some item else store.get t r := by
  simp only [get]
  rw [put_table h, KeyedTable.find?_upsert]

theorem put_of_no_source (store : LocalReviewStore) (h : item.request.sourceKey = "") :
    ∃ store', store.put item = .ok store' := by
  apply put_ok_iff.mpr
  rintro ⟨row, -, -, hsame⟩
  exact hsame.1 h

theorem put_of_get {old : ReviewItem} (h : store.get tenant reviewId = some old) (item : ReviewItem)
    (hkey : item.key = old.key) (hsource : item.request.sourceKey = old.request.sourceKey) :
    ∃ store', store.put item = .ok store' := by
  have hfree : ¬ store.SourceTaken item := by
    rintro ⟨row, hrow, hne, hsame⟩
    have htenant : item.tenant = old.tenant := congrArg Prod.fst hkey
    have heq : old = row := store.sourceUnique old (mem_of_get h) row hrow
      ⟨hsource ▸ hsame.1, htenant ▸ hsame.2.1, hsource ▸ hsame.2.2⟩
    rw [hkey, heq] at hne
    exact hne rfl
  exact ⟨_, dif_neg hfree⟩

/-- A put that keeps the source key of the row, or brings none, meets no constraint. -/
theorem put_of_kept (h : item.request.sourceKey =
    ((store.get item.tenant item.reviewId).map (fun old => old.request.sourceKey)).getD "") :
    ∃ store', store.put item = .ok store' := by
  cases hget : store.get item.tenant item.reviewId with
  | none =>
    rw [hget] at h
    exact put_of_no_source store h
  | some old =>
    rw [hget] at h
    obtain ⟨htenant, hid⟩ := key_of_get hget
    exact put_of_get hget item (Prod.ext htenant.symm hid.symm) h

theorem findBySourceKey_spec {k : String} (h : store.findBySourceKey tenant k = some item) :
    item ∈ store.table.rows ∧ item.tenant = tenant ∧ item.request.sourceKey = k ∧ k ≠ "" := by
  simp only [findBySourceKey] at h
  split at h
  · cases h
  · have hp := List.find?_some h
    simp only [decide_eq_true_eq] at hp
    exact ⟨List.mem_of_find?_eq_some h, hp.1, hp.2, ‹_›⟩

theorem mem_listAll :
    item ∈ store.listAll tenant ↔ item ∈ store.table.rows ∧ item.tenant = tenant := by
  simp [listAll]

theorem mem_listPending : item ∈ store.listPending tenant ↔
    (item ∈ store.table.rows ∧ item.tenant = tenant) ∧ item.state = .pending := by
  simp [listPending, mem_listAll, ReviewItem.isTerminal]

theorem findBySourceKey_of_mem (h : item ∈ store.table.rows) (hkey : item.request.sourceKey ≠ "") :
    store.findBySourceKey item.tenant item.request.sourceKey = some item := by
  cases hfind : store.findBySourceKey item.tenant item.request.sourceKey with
  | none =>
    simp only [findBySourceKey, if_neg hkey] at hfind
    have hno := List.find?_eq_none.mp hfind item h
    simp at hno
  | some row =>
    obtain ⟨hrow, htenant, hsource, -⟩ := findBySourceKey_spec hfind
    rw [store.sourceUnique item h row hrow ⟨hkey, htenant.symm, hsource.symm⟩]

theorem put_of_not_found (h : store.findBySourceKey item.tenant item.request.sourceKey = none) :
    ∃ store', store.put item = .ok store' := by
  apply put_ok_iff.mpr
  intro htaken
  obtain ⟨row, hrow, -, hkey, htenant, hsource⟩ := htaken
  have hfound := findBySourceKey_of_mem hrow (hsource ▸ hkey)
  rw [← htenant, ← hsource, h] at hfound
  cases hfound

/-- The three ways an idempotent insert can end. -/
theorem putIfAbsentBySourceKey_cases (store : LocalReviewStore) (item : ReviewItem) :
    (∃ e, store.putIfAbsentBySourceKey item = .error e) ∨
    (∃ row, row ∈ store.table.rows ∧ row.tenant = item.tenant ∧
      row.request.sourceKey = item.request.sourceKey ∧ item.request.sourceKey ≠ "" ∧
      store.putIfAbsentBySourceKey item = .ok ((row, false), store)) ∨
    (∃ store', store.put item = .ok store' ∧
      (item.request.sourceKey ≠ "" → store.get item.tenant item.reviewId = none) ∧
      store.putIfAbsentBySourceKey item = .ok ((item, true), store')) := by
  simp only [putIfAbsentBySourceKey]
  split
  · cases hput : store.put item with
    | error e => exact Or.inl ⟨e, rfl⟩
    | ok store' => exact Or.inr (Or.inr ⟨store', rfl, fun h => absurd ‹_› h, rfl⟩)
  · cases hfind : store.findBySourceKey item.tenant item.request.sourceKey with
    | some row =>
      obtain ⟨h1, h2, h3, h4⟩ := findBySourceKey_spec hfind
      exact Or.inr (Or.inl ⟨row, h1, h2, h3, h4, rfl⟩)
    | none =>
      cases hget : store.get item.tenant item.reviewId with
      | some old => exact Or.inl ⟨_, rfl⟩
      | none =>
        cases hput : store.put item with
        | error e => exact Or.inl ⟨e, rfl⟩
        | ok store' => exact Or.inr (Or.inr ⟨store', rfl, fun _ => rfl, rfl⟩)

theorem putIfAbsentBySourceKey_created :
    (∃ reviews, store.putIfAbsentBySourceKey item = .ok ((item, true), reviews)) ↔
      item.request.sourceKey = "" ∨
      (store.findBySourceKey item.tenant item.request.sourceKey = none ∧
        store.get item.tenant item.reviewId = none) := by
  simp only [putIfAbsentBySourceKey]
  by_cases hkey : item.request.sourceKey = ""
  · obtain ⟨reviews, hput⟩ := store.put_of_no_source hkey
    simp [hkey, hput, Except.map]
  · simp only [hkey, if_false, false_or]
    cases hfind : store.findBySourceKey item.tenant item.request.sourceKey with
    | some row => simp
    | none =>
      cases hget : store.get item.tenant item.reviewId with
      | some old => simp
      | none =>
        obtain ⟨reviews, hput⟩ := put_of_not_found hfind
        simp [hput, Except.map]

theorem sourceTaken_congr {a b : ReviewItem}
    (hkey : a.key = b.key) (hsource : a.request.sourceKey = b.request.sourceKey) :
    store.SourceTaken a ↔ store.SourceTaken b := by
  have htenant : a.tenant = b.tenant := congrArg Prod.fst hkey
  simp only [SourceTaken, SameSource, hkey, htenant, hsource]

end LocalReviewStore

/-- The state behind the local adapters. -/
structure World where
  reviews : LocalReviewStore
  cases : KeyedTable Case.key
  timers : KeyedTable Timer.key
  published : List PublishedEvent
  log : List AuditEvent

namespace World

def empty : World := ⟨.empty, .empty, .empty, [], []⟩

def getCase (w : World) (tenant caseId : String) : Option Case := w.cases.find? (tenant, caseId)

def trail (w : World) (tenant reviewId : String) : List SignOffEvent :=
  w.log.filterMap (fun
    | .signOff e => if e.tenant = tenant ∧ e.reviewId = reviewId then some e else none
    | .caseAction _ => none)

def caseTrail (w : World) (tenant caseId : String) : List CaseAuditEvent :=
  w.log.filterMap (fun
    | .caseAction e => if e.tenant = tenant ∧ e.caseId = caseId then some e else none
    | .signOff _ => none)

def timersOf (w : World) (tenant caseId : String) : List Timer :=
  w.timers.rows.filter (fun t => t.tenant = tenant ∧ t.caseId = caseId)

end World

/-- What the local adapters do. -/
def localPorts : Handler PortOp PortOp.Ret ServiceError World
  | .reviewPut item, w => match w.reviews.put item with
    | .ok reviews => (.ok (), { w with reviews })
    | .error e => (.error e, w)
  | .reviewPutIfAbsentBySourceKey item, w => match w.reviews.putIfAbsentBySourceKey item with
    | .ok (answer, reviews) => (.ok answer, { w with reviews })
    | .error e => (.error e, w)
  | .reviewGet tenant reviewId, w => (.ok (w.reviews.get tenant reviewId), w)
  | .reviewFindBySourceKey tenant sourceKey, w =>
    (.ok (w.reviews.findBySourceKey tenant sourceKey), w)
  | .reviewListPending tenant, w => (.ok (w.reviews.listPending tenant), w)
  | .reviewListAll tenant, w => (.ok (w.reviews.listAll tenant), w)
  | .casePut c, w => (.ok (), { w with cases := w.cases.upsert c })
  | .caseGet tenant caseId, w => (.ok (w.getCase tenant caseId), w)
  | .caseListByTenant tenant, w => (.ok (w.cases.rows.filter (fun c => c.tenant = tenant)), w)
  | .timerSchedule timer, w => (.ok (), { w with timers := w.timers.upsert timer })
  | .timerCancel tenant caseId clock, w =>
    (.ok (), { w with timers := w.timers.erase (tenant, caseId, clock) })
  | .publish event, w => (.ok (), { w with published := w.published ++ [event] })
  | .record event, w => (.ok (), { w with log := w.log ++ [event] })

/-- The audit events that an operation writes. -/
def PortOp.recorded : PortOp → List AuditEvent
  | .record event => [event]
  | _ => []

theorem localPorts_log (op : PortOp) (w : World) :
    (localPorts op w).2.log = w.log ++ op.recorded := by
  cases op with
  | reviewPut item =>
    simp only [localPorts, PortOp.recorded, List.append_nil]
    cases w.reviews.put item <;> rfl
  | reviewPutIfAbsentBySourceKey item =>
    simp only [localPorts, PortOp.recorded, List.append_nil]
    cases w.reviews.putIfAbsentBySourceKey item <;> rfl
  | record event => rfl
  | _ => exact (List.append_nil _).symm

end ReviewConsole
