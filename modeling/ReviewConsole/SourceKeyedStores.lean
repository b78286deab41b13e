import Mathlib.Logic.Function.Basic
import ReviewConsole.FirestoreReviews

/-!
# What producer intake asks of a review store

The promises of the review store port on which intake by source key rests, with the audit
sink beside it. The store is seen as the item under each key. Both adapters keep the
promises: one by its unique index, the other by querying inside the transaction.
-/
namespace ReviewConsole
open PortPrograms KeyedTables

/-- No two stored items share a tenant and a source key. -/
def SourcesApart (items : String × String → Option ReviewItem) : Prop :=
  ∀ k k' a b, items k = some a → items k' = some b → SameSource a b → a = b

theorem SourcesApart.update {items : String × String → Option ReviewItem} {a : ReviewItem}
    (h : SourcesApart items) (hkey : ∀ k b, items k = some b → b.key = k)
    (hfree : ∀ k b, items k = some b → SameSource a b → b.key = a.key) :
    SourcesApart (Function.update items a.key (some a)) := by
  intro k k' x y hx hy hsame
  rw [Function.update_apply] at hx hy
  split at hx
  · cases hx
    split at hy
    · cases hy
      rfl
    · rename_i hne
      exact absurd ((hkey k' y hy).symm.trans (hfree k' y hy hsame)) hne
  · rename_i hne
    split at hy
    · cases hy
      exact absurd ((hkey k x hx).symm.trans (hfree k x hx hsame.symm)) hne
    · exact h k k' x y hx hy hsame

/-- A review store and the audit sink beside it. -/
structure ReviewStorePort (σ : Type) where
  ports : Handler PortOp PortOp.Ret ServiceError σ
  empty : σ
  item : σ → String × String → Option ReviewItem
  findBySourceKey : σ → String → String → Option ReviewItem
  log : σ → List AuditEvent
  item_empty : ∀ k, item empty k = none
  log_empty : log empty = []
  item_key : ∀ s k a, item s k = some a → a.key = k
  find_spec : ∀ s tenant sourceKey a, SourcesApart (item s) →
    (findBySourceKey s tenant sourceKey = some a ↔ sourceKey ≠ "" ∧ item s a.key = some a ∧
      a.tenant = tenant ∧ a.request.sourceKey = sourceKey)
  find : ∀ s tenant sourceKey, ports (.reviewFindBySourceKey tenant sourceKey) s =
    (.ok (findBySourceKey s tenant sourceKey), s)
  get : ∀ s tenant reviewId, ports (.reviewGet tenant reviewId) s =
    (.ok (item s (tenant, reviewId)), s)
  put : ∀ s a, a.request.sourceKey = ((item s a.key).map (fun b => b.request.sourceKey)).getD "" →
    ∃ s', ports (.reviewPut a) s = (.ok (), s') ∧
      item s' = Function.update (item s) a.key (some a) ∧ log s' = log s
  putIfAbsent_found : ∀ s a b, findBySourceKey s a.tenant a.request.sourceKey = some b →
    ports (.reviewPutIfAbsentBySourceKey a) s = (.ok (b, false), s)
  putIfAbsent_created : ∀ s a, item s a.key = none →
    findBySourceKey s a.tenant a.request.sourceKey = none →
    ∃ s', ports (.reviewPutIfAbsentBySourceKey a) s = (.ok (a, true), s') ∧
      item s' = Function.update (item s) a.key (some a) ∧ log s' = log s
  record : ∀ s e, ∃ s', ports (.record e) s = (.ok (), s') ∧ item s' = item s ∧
    log s' = log s ++ [e]

namespace LocalReviewStore

theorem get_update {store store' : LocalReviewStore} {a : ReviewItem}
    (h : store.put a = .ok store') : (fun k : String × String => store'.get k.1 k.2) =
      Function.update (fun k : String × String => store.get k.1 k.2) a.key (some a) := by
  funext k
  rw [get_put h, Function.update_apply]

end LocalReviewStore

def localStorePort : ReviewStorePort World where
  ports := localPorts
  empty := .empty
  item w k := w.reviews.get k.1 k.2
  findBySourceKey w tenant sourceKey := w.reviews.findBySourceKey tenant sourceKey
  log w := w.log
  item_empty _ := rfl
  log_empty := rfl
  item_key w k a h := KeyedTable.key_of_find? h
  find_spec w tenant sourceKey a _ := by
    constructor
    · intro h
      obtain ⟨hrow, htenant, hsource, hkey⟩ := LocalReviewStore.findBySourceKey_spec h
      exact ⟨hkey, LocalReviewStore.get_of_mem hrow, htenant, hsource⟩
    · intro h
      obtain ⟨hkey, hget, htenant, hsource⟩ := h
      rw [← htenant, ← hsource]
      exact LocalReviewStore.findBySourceKey_of_mem (LocalReviewStore.mem_of_get hget)
        (hsource ▸ hkey)
  find _ _ _ := rfl
  get _ _ _ := rfl
  put w a h := by
    obtain ⟨reviews, hput⟩ := LocalReviewStore.put_of_kept h
    refine ⟨{ w with reviews }, ?_, LocalReviewStore.get_update hput, rfl⟩
    simp only [localPorts, hput]
  putIfAbsent_found w a b h := by
    have hkey := (LocalReviewStore.findBySourceKey_spec h).2.2.2
    simp only [localPorts, LocalReviewStore.putIfAbsentBySourceKey, if_neg hkey, h]
  putIfAbsent_created w a hnew h := by
    obtain ⟨reviews, hok⟩ := LocalReviewStore.putIfAbsentBySourceKey_created.mpr (Or.inr ⟨h, hnew⟩)
    refine ⟨{ w with reviews }, ?_, ?_, rfl⟩
    · simp only [localPorts, hok]
    · rcases w.reviews.putIfAbsentBySourceKey_cases a with
        ⟨e, he⟩ | ⟨row, -, -, -, -, he⟩ | ⟨reviews', hput, -, he⟩
      · cases hok.symm.trans he
      · cases hok.symm.trans he
      · cases hok.symm.trans he
        exact LocalReviewStore.get_update hput
  record w e := ⟨_, rfl, rfl, rfl⟩

/-- The managed review store in the place of the local one. -/
structure FirestoreWorld where
  store : FirestoreReviewStore
  others : World

def firestorePorts : Handler PortOp PortOp.Ret ServiceError FirestoreWorld
  | .reviewPut item, w => (.ok (), { w with store := w.store.put item })
  | .reviewPutIfAbsentBySourceKey item, w =>
    (.ok (w.store.putIfAbsentBySourceKey item).1,
      { w with store := (w.store.putIfAbsentBySourceKey item).2 })
  | .reviewGet tenant reviewId, w => (.ok (w.store.get tenant reviewId), w)
  | .reviewFindBySourceKey tenant sourceKey, w =>
    (.ok (w.store.findBySourceKey tenant sourceKey), w)
  | .reviewListPending tenant, w => (.ok (w.store.listPending tenant), w)
  | .reviewListAll tenant, w => (.ok (w.store.listAll tenant), w)
  | op, w => ((localPorts op w.others).1, { w with others := (localPorts op w.others).2 })

namespace FirestoreReviewStore

variable {store : FirestoreReviewStore} {a : ReviewItem}

theorem get_update : (fun k : String × String => (store.put a).get k.1 k.2) =
    Function.update (fun k : String × String => store.get k.1 k.2) a.key (some a) := by
  funext k
  rw [Function.update_apply]
  exact KeyedTable.find?_upsert

theorem mem_stream {tenant : String} :
    a ∈ store.stream tenant ↔ store.get a.tenant a.reviewId = some a ∧ a.tenant = tenant := by
  have hmem : a ∈ store.docs.rows ↔ store.get a.tenant a.reviewId = some a :=
    KeyedTable.mem_iff_find?
  simp [stream, hmem]

theorem findBySourceKey_iff {tenant sourceKey : String}
    (h : SourcesApart (fun k => store.get k.1 k.2)) :
    store.findBySourceKey tenant sourceKey = some a ↔ sourceKey ≠ "" ∧
      store.get a.tenant a.reviewId = some a ∧ a.tenant = tenant ∧
        a.request.sourceKey = sourceKey := by
  simp only [findBySourceKey, query]
  by_cases hkey : sourceKey = ""
  · simp [hkey]
  · rw [if_neg hkey]
    constructor
    · intro hfind
      obtain ⟨hget, htenant⟩ := mem_stream.mp (List.mem_of_find?_eq_some hfind)
      exact ⟨hkey, hget, htenant, by simpa using List.find?_some hfind⟩
    · intro hall
      obtain ⟨-, hget, htenant, hsource⟩ := hall
      cases hfind : (store.stream tenant).find? (fun doc => doc.request.sourceKey = sourceKey) with
      | none =>
        have hno := List.find?_eq_none.mp hfind a (mem_stream.mpr ⟨hget, htenant⟩)
        simp [hsource] at hno
      | some b =>
        obtain ⟨hget', htenant'⟩ := mem_stream.mp (List.mem_of_find?_eq_some hfind)
        have hsource' : b.request.sourceKey = sourceKey := by simpa using List.find?_some hfind
        rw [h b.key a.key b a hget' hget ⟨hsource' ▸ hkey, htenant'.trans htenant.symm,
          hsource'.trans hsource.symm⟩]

end FirestoreReviewStore

def firestoreStorePort : ReviewStorePort FirestoreWorld where
  ports := firestorePorts
  empty := ⟨.empty, .empty⟩
  item w k := w.store.get k.1 k.2
  findBySourceKey w tenant sourceKey := w.store.findBySourceKey tenant sourceKey
  log w := w.others.log
  item_empty _ := rfl
  log_empty := rfl
  item_key w k a h := KeyedTable.key_of_find? h
  find_spec w tenant sourceKey a h := FirestoreReviewStore.findBySourceKey_iff h
  find _ _ _ := rfl
  get _ _ _ := rfl
  put w a _ := ⟨_, rfl, FirestoreReviewStore.get_update, rfl⟩
  putIfAbsent_found w a b h := by
    have hkey : a.request.sourceKey ≠ "" := by
      intro he
      simp [FirestoreReviewStore.findBySourceKey, he] at h
    have hquery : w.store.query a.tenant a.request.sourceKey = some b := by
      rw [← h, FirestoreReviewStore.findBySourceKey, if_neg hkey]
    simp only [firestorePorts, FirestoreReviewStore.putIfAbsentBySourceKey, if_neg hkey, hquery]
  putIfAbsent_created w a _ h := by
    have hput : w.store.putIfAbsentBySourceKey a = ((a, true), w.store.put a) := by
      unfold FirestoreReviewStore.putIfAbsentBySourceKey
      by_cases hkey : a.request.sourceKey = ""
      · rw [if_pos hkey]
      · rw [FirestoreReviewStore.findBySourceKey, if_neg hkey] at h
        rw [if_neg hkey, h]
    refine ⟨{ w with store := w.store.put a }, ?_, FirestoreReviewStore.get_update, rfl⟩
    simp only [firestorePorts, hput]
  record w e := ⟨_, rfl, rfl, rfl⟩

end ReviewConsole
