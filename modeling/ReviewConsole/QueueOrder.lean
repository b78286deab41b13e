import ReviewConsole.FirestoreReviews
import ReviewConsole.IsoTexts

/-!
# The order of the local queue

The local store orders its rows by the text of the submission time. Over any calls the rows
are the last writes of each review, and the order is that of the instants.
-/
namespace ReviewConsole
open GuardedRuns KeyedTables SortedRows ReviewStores

namespace LocalReviewStore

def written (store : LocalReviewStore) : ReviewStoreCall → Option ReviewItem
  | .put item => if store.SourceTaken item then none else some item
  | .putIfAbsentBySourceKey item => match store.putIfAbsentBySourceKey item with
    | .ok ((_, true), _) => some item
    | _ => none
  | _ => none

def served (store : LocalReviewStore) (call : ReviewStoreCall) : LocalReviewStore :=
  (store.answer call).2

end LocalReviewStore

def queueAfter (calls : List ReviewStoreCall) : LocalReviewStore :=
  run LocalReviewStore.served .empty calls

def writes (calls : List ReviewStoreCall) : List ReviewItem :=
  (outputs LocalReviewStore.served LocalReviewStore.written .empty calls).filterMap id

def latest (ws : List ReviewItem) (key : String × String) : Option ReviewItem :=
  ws.reverse.find? (fun w => w.key = key)

/-- The item that the call brings was submitted in the years 1 to 9999. -/
def ReviewStoreCall.InRange : ReviewStoreCall → Prop
  | .put item => item.request.submittedAt.InRange
  | .putIfAbsentBySourceKey item => item.request.submittedAt.InRange
  | _ => True

section
variable {store : LocalReviewStore} {call : ReviewStoreCall} {calls : List ReviewStoreCall}
variable {item : ReviewItem} {tenant : String}

theorem latest_snoc (ws : List ReviewItem) (item : ReviewItem) (key : String × String) :
    latest (ws ++ [item]) key = if key = item.key then some item else latest ws key := by
  rw [latest, List.reverse_append, List.reverse_singleton, List.singleton_append, List.find?_cons]
  by_cases h : key = item.key
  · simp [h]
  · simp [h, Ne.symm h, latest]

theorem served_table (store : LocalReviewStore) (call : ReviewStoreCall) :
    (store.written call = none ∧ (store.served call).table = store.table) ∨
      ∃ item, store.written call = some item ∧
        (store.served call).table = store.table.upsert item := by
  cases call with
  | put item =>
    simp only [LocalReviewStore.written, LocalReviewStore.served, LocalReviewStore.answer]
    by_cases h : store.SourceTaken item
    · simp [LocalReviewStore.put, h]
    · simp [LocalReviewStore.put, h]
  | putIfAbsentBySourceKey item =>
    simp only [LocalReviewStore.written, LocalReviewStore.served, LocalReviewStore.answer]
    rcases store.putIfAbsentBySourceKey_cases item with ⟨e, h⟩ | ⟨row, -, -, -, -, h⟩ |
      ⟨store', hput, -, h⟩
    · simp [h]
    · simp [h]
    · simp [h, LocalReviewStore.put_table hput]
  | _ => exact Or.inl ⟨rfl, rfl⟩

theorem writes_snoc (calls : List ReviewStoreCall) (call : ReviewStoreCall) :
    writes (calls ++ [call]) = writes calls ++ ((queueAfter calls).written call).toList := by
  rw [writes, outputs_snoc, List.filterMap_append, ← queueAfter, ← writes]
  cases (queueAfter calls).written call <;> rfl

theorem find?_queueAfter (calls : List ReviewStoreCall) (key : String × String) :
    (queueAfter calls).table.find? key = latest (writes calls) key := by
  induction calls using List.reverseRecOn with
  | nil => rfl
  | append_singleton calls call ih =>
    rw [writes_snoc, queueAfter, run_snoc, ← queueAfter]
    rcases served_table (queueAfter calls) call with ⟨hnone, htable⟩ | ⟨item, hsome, htable⟩
    · rw [htable, hnone, ih]
      simp
    · rw [htable, hsome, KeyedTable.find?_upsert, ih]
      exact (latest_snoc _ _ _).symm

theorem written_inRange (h : call.InRange) (hwritten : store.written call = some item) :
    item.request.submittedAt.InRange := by
  cases call with
  | put item' =>
    simp only [LocalReviewStore.written] at hwritten
    split at hwritten
    · cases hwritten
    · cases hwritten
      exact h
  | putIfAbsentBySourceKey item' =>
    simp only [LocalReviewStore.written] at hwritten
    split at hwritten
    · cases hwritten
      exact h
    · cases hwritten
  | _ => cases hwritten

theorem writes_inRange (h : ∀ call ∈ calls, call.InRange) :
    ∀ item ∈ writes calls, item.request.submittedAt.InRange := by
  induction calls using List.reverseRecOn with
  | nil =>
    intro item hitem
    cases hitem
  | append_singleton calls call ih =>
    intro item hitem
    rw [writes_snoc, List.mem_append] at hitem
    rcases hitem with hold | hnew
    · exact ih (fun c hc => h c (List.mem_append_left _ hc)) item hold
    · rw [Option.mem_toList] at hnew
      exact written_inRange (h call (by simp)) hnew

theorem mem_listAll_queueAfter : item ∈ (queueAfter calls).listAll tenant ↔
    item.tenant = tenant ∧ latest (writes calls) item.key = some item := by
  rw [LocalReviewStore.mem_listAll, KeyedTable.mem_iff_find?, find?_queueAfter, and_comm]

theorem listAll_inRange (h : ∀ call ∈ calls, call.InRange)
    (hitem : item ∈ (queueAfter calls).listAll tenant) :
    item.request.submittedAt.InRange := by
  obtain ⟨-, hlatest⟩ := mem_listAll_queueAfter.mp hitem
  exact writes_inRange h item (List.mem_reverse.mp (List.mem_of_find?_eq_some hlatest))

theorem nodup_listAll (store : LocalReviewStore) (tenant : String) :
    ((store.listAll tenant).map ReviewItem.reviewId).Nodup := by
  have hperm : (store.listAll tenant).Perm
      (store.table.rows.filter (fun row => row.tenant = tenant)) := List.perm_insertionSort _ _
  rw [(hperm.map _).nodup_iff]
  have hkeys : ((store.table.rows.filter (fun row => row.tenant = tenant)).map
      ReviewItem.key).Nodup :=
    (List.filter_sublist.map _).nodup store.table.unique
  rw [List.Nodup, List.pairwise_map] at hkeys ⊢
  refine hkeys.imp_of_mem ?_
  intro a b ha hb hne hid
  have htenant := of_decide_eq_true (List.mem_filter.mp ha).2
  have htenant' := of_decide_eq_true (List.mem_filter.mp hb).2
  exact hne (Prod.ext (htenant.trans htenant'.symm) hid)

end

/-- The first item was submitted before the second, or at the same instant under the smaller
review id. -/
def SubmittedBefore (a b : ReviewItem) : Prop :=
  a.request.submittedAt < b.request.submittedAt ∨
    (a.request.submittedAt = b.request.submittedAt ∧ a.reviewId < b.reviewId)

/-- The queue of a tenant, as the local store lists it after these calls. -/
structure ListedOldestFirst (calls : List ReviewStoreCall) (tenant : String) : Prop where
  complete : ∀ item, item ∈ (queueAfter calls).listAll tenant ↔
    item.tenant = tenant ∧ latest (writes calls) item.key = some item
  once : (((queueAfter calls).listAll tenant).map ReviewItem.reviewId).Nodup
  ordered : ((queueAfter calls).listAll tenant).Pairwise SubmittedBefore
  pending : (queueAfter calls).listPending tenant =
    ((queueAfter calls).listAll tenant).filter (fun item => !item.isTerminal)

/-- The local queue is listed oldest first: the text order it sorts by is the order in time. -/
theorem local_queue_oldest_first (calls : List ReviewStoreCall)
    (h : ∀ call ∈ calls, call.InRange) (tenant : String) :
    ListedOldestFirst calls tenant ∧ ∀ a b : DateTime, a.InRange → b.InRange →
      (a.isoformat < b.isoformat ↔ a < b) := by
  refine ⟨⟨fun item => mem_listAll_queueAfter, nodup_listAll _ _, ?_, rfl⟩,
    fun a b ha hb => isoformat_lt_iff ha hb⟩
  have hdistinct := nodup_listAll (queueAfter calls) tenant
  rw [List.Nodup, List.pairwise_map] at hdistinct
  refine (hdistinct.and (sortedBy_listingKey (queueAfter calls) tenant)).imp_of_mem ?_
  intro a b ha hb hab
  obtain ⟨hid, hle⟩ := hab
  have hrange := listAll_inRange h ha
  have hrange' := listAll_inRange h hb
  rcases Prod.Lex.toLex_le_toLex.mp hle with htext | ⟨htext, hids⟩
  · exact Or.inl ((isoformat_lt_iff hrange hrange').mp htext)
  · exact Or.inr ⟨(isoformat_inj hrange hrange').mp htext, lt_of_le_of_ne hids hid⟩

namespace Demo

/-- Three reviews of the second after noon, two of them of one instant, and an approved one of a
quarter of a second before. -/
def mixedPuts : List ReviewStoreCall :=
  let before : DateTime := ⟨739816, 43199750000⟩
  [.put { request := queued "rev-2" ⟨739816, 43200500000⟩ },
    .put { request := queued "rev-3" noon },
    .putIfAbsentBySourceKey { request := queued "rev-1" noon },
    .put { request := queued "rev-4" before },
    .put { request := queued "rev-4" before, state := .approved }]

end Demo

theorem demo_local_queue_oldest_first :
    (((queueAfter Demo.mixedPuts).listAll "demo-bank").map ReviewItem.reviewId =
      ["rev-4", "rev-1", "rev-3", "rev-2"] ∧
      ((queueAfter Demo.mixedPuts).listPending "demo-bank").map ReviewItem.reviewId =
        ["rev-1", "rev-3", "rev-2"]) ∧
    ListedOldestFirst Demo.mixedPuts "demo-bank" ∧ ∀ a b : DateTime, a.InRange → b.InRange →
      (a.isoformat < b.isoformat ↔ a < b) := by
  refine ⟨by decide +kernel, local_queue_oldest_first Demo.mixedPuts ?_ "demo-bank"⟩
  intro call hcall
  simp only [Demo.mixedPuts, List.mem_cons, List.not_mem_nil, or_false] at hcall
  rcases hcall with rfl | rfl | rfl | rfl | rfl <;> exact ⟨by decide, by decide⟩

end ReviewConsole
