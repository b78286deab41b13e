import ReviewConsole.GuardedRuns
import ReviewConsole.ConsoleRuns
import ReviewConsole.SortedRows
import Mathlib.Data.String.Basic

/-!
# The two review stores

The managed adapter keeps each item as a document of the tenant's collection, under its review
id, and reads a collection in the order of the document ids. It is run beside the local store
over the same calls.
-/
namespace ReviewConsole
open GuardedRuns KeyedTables SortedRows

/-- The documents, by tenant and document id. -/
structure FirestoreReviewStore where
  docs : KeyedTable ReviewItem.key

namespace FirestoreReviewStore

variable (store : FirestoreReviewStore)

def empty : FirestoreReviewStore := ⟨.empty⟩

/-- The documents of one collection, as they are streamed. -/
def stream (tenant : String) : List ReviewItem :=
  (store.docs.rows.filter (fun doc => doc.tenant = tenant)).insertionSort
    (fun a b => a.reviewId ≤ b.reviewId)

def put (item : ReviewItem) : FirestoreReviewStore := ⟨store.docs.upsert item⟩

/-- The query for a source key, limited to one document. -/
def query (tenant sourceKey : String) : Option ReviewItem :=
  (store.stream tenant).find? (fun doc => doc.request.sourceKey = sourceKey)

/-- Query and write happen in one transaction. -/
def putIfAbsentBySourceKey (item : ReviewItem) : (ReviewItem × Bool) × FirestoreReviewStore :=
  if item.request.sourceKey = "" then ((item, true), store.put item)
  else match store.query item.tenant item.request.sourceKey with
    | some doc => ((doc, false), store)
    | none => ((item, true), store.put item)

def get (tenant reviewId : String) : Option ReviewItem := store.docs.find? (tenant, reviewId)

def findBySourceKey (tenant sourceKey : String) : Option ReviewItem :=
  if sourceKey = "" then none else store.query tenant sourceKey

def listAll (tenant : String) : List ReviewItem := store.stream tenant

def listPending (tenant : String) : List ReviewItem :=
  (store.listAll tenant).filter (fun item => !item.isTerminal)

end FirestoreReviewStore

/-- A call on the review store port. -/
inductive ReviewStoreCall where
  | put (item : ReviewItem)
  | putIfAbsentBySourceKey (item : ReviewItem)
  | get (tenant reviewId : String)
  | findBySourceKey (tenant sourceKey : String)
  | listPending (tenant : String)
  | listAll (tenant : String)

@[reducible] def ReviewStoreCall.Ret : ReviewStoreCall → Type
  | .put _ => Unit
  | .putIfAbsentBySourceKey _ => ReviewItem × Bool
  | .get _ _ => Option ReviewItem
  | .findBySourceKey _ _ => Option ReviewItem
  | .listPending _ => List ReviewItem
  | .listAll _ => List ReviewItem

def LocalReviewStore.answer (store : LocalReviewStore) :
    (call : ReviewStoreCall) → Except ServiceError call.Ret × LocalReviewStore
  | .put item => match store.put item with
    | .ok store' => (.ok (), store')
    | .error e => (.error e, store)
  | .putIfAbsentBySourceKey item => match store.putIfAbsentBySourceKey item with
    | .ok (answer, store') => (.ok answer, store')
    | .error e => (.error e, store)
  | .get tenant reviewId => (.ok (store.get tenant reviewId), store)
  | .findBySourceKey tenant sourceKey => (.ok (store.findBySourceKey tenant sourceKey), store)
  | .listPending tenant => (.ok (store.listPending tenant), store)
  | .listAll tenant => (.ok (store.listAll tenant), store)

/-- No call raises: the transaction is retried, and a document is overwritten. -/
def FirestoreReviewStore.answer (store : FirestoreReviewStore) :
    (call : ReviewStoreCall) → Except ServiceError call.Ret × FirestoreReviewStore
  | .put item => (.ok (), store.put item)
  | .putIfAbsentBySourceKey item =>
    (.ok (store.putIfAbsentBySourceKey item).1, (store.putIfAbsentBySourceKey item).2)
  | .get tenant reviewId => (.ok (store.get tenant reviewId), store)
  | .findBySourceKey tenant sourceKey => (.ok (store.findBySourceKey tenant sourceKey), store)
  | .listPending tenant => (.ok (store.listPending tenant), store)
  | .listAll tenant => (.ok (store.listAll tenant), store)

/-- The two stores, side by side. -/
structure ReviewStores where
  sqlite : LocalReviewStore
  firestore : FirestoreReviewStore

namespace ReviewStores

def empty : ReviewStores := ⟨.empty, .empty⟩

def serve (s : ReviewStores) (call : ReviewStoreCall) : ReviewStores :=
  ⟨(s.sqlite.answer call).2, (s.firestore.answer call).2⟩

/-- The calls that the console makes: an item that is put keeps the source key it is stored
with, which is none for a new item, and an item is put in if absent under a fresh id. -/
def AsConsole (s : ReviewStores) : ReviewStoreCall → Prop
  | .put item => item.request.sourceKey =
      ((s.sqlite.get item.tenant item.reviewId).map (fun old => old.request.sourceKey)).getD ""
  | .putIfAbsentBySourceKey item => s.sqlite.get item.tenant item.reviewId = none
  | _ => True

def SameAnswer (s : ReviewStores) (call : ReviewStoreCall) : Prop :=
  (s.sqlite.answer call).1 = (s.firestore.answer call).1

/-- The instant of submission, as the local store orders by it. -/
def submittedText (item : ReviewItem) : String := item.request.submittedAt.isoformat

/-- The list that the call gets from the managed store is oldest first. -/
def OldestFirst (s : ReviewStores) : ReviewStoreCall → Prop
  | .listPending tenant => SortedBy submittedText (s.firestore.listPending tenant)
  | .listAll tenant => SortedBy submittedText (s.firestore.listAll tenant)
  | _ => True

/-- Of two items that the call lists, the one submitted earlier has the smaller review id. -/
def IdsFollowTime (s : ReviewStores) : ReviewStoreCall → Prop
  | .listPending tenant => OrderAgrees submittedText ReviewItem.reviewId
      (s.sqlite.table.rows.filter (fun row => row.tenant = tenant ∧ row.state = .pending))
  | .listAll tenant => OrderAgrees submittedText ReviewItem.reviewId
      (s.sqlite.table.rows.filter (fun row => row.tenant = tenant))
  | _ => True

instance (s : ReviewStores) (call : ReviewStoreCall) : Decidable (AsConsole s call) :=
  match call with
  | .put _ => by
    dsimp only [AsConsole]
    infer_instance
  | .putIfAbsentBySourceKey _ => by
    dsimp only [AsConsole]
    infer_instance
  | .get _ _ | .findBySourceKey _ _ | .listPending _ | .listAll _ =>
    inferInstanceAs (Decidable True)

instance (s : ReviewStores) (call : ReviewStoreCall) : Decidable (IdsFollowTime s call) :=
  match call with
  | .listPending _ => by
    dsimp only [IdsFollowTime]
    infer_instance
  | .listAll _ => by
    dsimp only [IdsFollowTime]
    infer_instance
  | .put _ | .putIfAbsentBySourceKey _ | .get _ _ | .findBySourceKey _ _ =>
    inferInstanceAs (Decidable True)

/-- The two stores hold the same rows. -/
def Twin (s : ReviewStores) : Prop := s.firestore.docs = s.sqlite.table

def listingKey (item : ReviewItem) : String ×ₗ String := toLex (submittedText item, item.reviewId)

section
variable {s : ReviewStores} {tenant : String} {l l' : List ReviewItem}

theorem sortedBy_listingKey (store : LocalReviewStore) (tenant : String) :
    SortedBy listingKey (store.listAll tenant) := by
  unfold LocalReviewStore.listAll
  apply sortedBy_insertionSort
  intro a b
  simp only [listingKey, submittedText, Prod.Lex.toLex_le_toLex, not_lt]

/-- Both stores list the rows of one tenant, each in its own order. -/
private structure Listings (s : ReviewStores) (tenant : String) (l l' : List ReviewItem) :
    Prop where
  rows : ∀ a ∈ l, a ∈ s.sqlite.table.rows ∧ a.tenant = tenant
  perm : l.Perm l'
  byKey : SortedBy listingKey l
  byId : SortedBy ReviewItem.reviewId l'

private theorem listings_all (h : Twin s) (tenant : String) :
    Listings s tenant (s.sqlite.listAll tenant) (s.firestore.listAll tenant) where
  rows a ha := LocalReviewStore.mem_listAll.mp ha
  perm := by
    rw [FirestoreReviewStore.listAll, FirestoreReviewStore.stream, h]
    exact (List.perm_insertionSort _ _).trans (List.perm_insertionSort _ _).symm
  byKey := sortedBy_listingKey _ _
  byId := sortedBy_insertionSort (fun _ _ => Iff.rfl) _

private theorem Listings.filter (h : Listings s tenant l l') (p : ReviewItem → Bool) :
    Listings s tenant (l.filter p) (l'.filter p) where
  rows a ha := h.rows a (List.mem_filter.mp ha).1
  perm := h.perm.filter p
  byKey := h.byKey.filter p
  byId := h.byId.filter p

private theorem Listings.id_inj (h : Listings s tenant l l') :
    ∀ a ∈ l, ∀ b ∈ l, a.reviewId = b.reviewId → a = b := by
  intro a ha b hb hid
  have hkey : a.key = b.key := Prod.ext ((h.rows a ha).2.trans (h.rows b hb).2.symm) hid
  have hfind := KeyedTable.find?_of_mem (h.rows a ha).1
  rw [hkey, KeyedTable.find?_of_mem (h.rows b hb).1] at hfind
  exact (Option.some.inj hfind).symm

private theorem orderAgrees_listingKey :
    OrderAgrees listingKey ReviewItem.reviewId l ↔
      OrderAgrees submittedText ReviewItem.reviewId l := by
  constructor
  · intro h a ha b hb hlt
    exact h a ha b hb (Prod.Lex.toLex_lt_toLex.mpr (Or.inl hlt))
  · intro h a ha b hb hlt
    rcases Prod.Lex.toLex_lt_toLex.mp hlt with htext | ⟨-, hid⟩
    · exact h a ha b hb htext
    · exact hid

private theorem Listings.eq_iff (h : Listings s tenant l l') :
    l = l' ↔ OrderAgrees submittedText ReviewItem.reviewId l := by
  rw [eq_iff_orderAgrees h.perm h.byKey h.byId ?_ h.id_inj, orderAgrees_listingKey]
  intro a ha b hb hkey
  exact h.id_inj a ha b hb (congrArg (fun k => (ofLex k).2) hkey)

private theorem Listings.oldestFirst_iff (h : Listings s tenant l l') :
    SortedBy submittedText l' ↔ OrderAgrees submittedText ReviewItem.reviewId l := by
  have hinj : ∀ a ∈ l', ∀ b ∈ l', a.reviewId = b.reviewId → a = b :=
    fun a ha b hb => h.id_inj a (h.perm.mem_iff.mpr ha) b (h.perm.mem_iff.mpr hb)
  rw [sortedBy_iff_orderAgrees h.byId hinj, orderAgrees_perm h.perm]

private theorem listAll_perm (store : LocalReviewStore) (tenant : String) :
    (store.listAll tenant).Perm (store.table.rows.filter (fun row => row.tenant = tenant)) :=
  List.perm_insertionSort _ _

private theorem listPending_perm (store : LocalReviewStore) (tenant : String) :
    (store.listPending tenant).Perm
      (store.table.rows.filter (fun row => row.tenant = tenant ∧ row.state = .pending)) := by
  have hfilter : (store.table.rows.filter (fun row => row.tenant = tenant)).filter
      (fun row => !row.isTerminal) =
      store.table.rows.filter (fun row => row.tenant = tenant ∧ row.state = .pending) := by
    rw [List.filter_filter]
    apply List.filter_congr
    intro row _
    have hstate : (!row.isTerminal) = decide (row.state = .pending) := by
      rw [ReviewItem.isTerminal]
      cases row.state <;> rfl
    rw [hstate, Bool.decide_and, Bool.and_comm]
  rw [← hfilter]
  exact (listAll_perm store tenant).filter _

end

section
variable {s : ReviewStores} {call : ReviewStoreCall}

theorem query_eq (h : Twin s) {tenant sourceKey : String} (hkey : sourceKey ≠ "") :
    s.firestore.query tenant sourceKey = s.sqlite.findBySourceKey tenant sourceKey := by
  have hmem (row : ReviewItem) : row ∈ s.firestore.stream tenant ↔
      row ∈ s.sqlite.table.rows ∧ row.tenant = tenant := by
    rw [FirestoreReviewStore.stream, h]
    simp
  cases hfind : s.firestore.query tenant sourceKey with
  | none =>
    have hno := List.find?_eq_none.mp hfind
    symm
    simp only [LocalReviewStore.findBySourceKey, if_neg hkey, List.find?_eq_none]
    intro row hrow hboth
    rw [decide_eq_true_eq] at hboth
    exact hno row ((hmem row).mpr ⟨hrow, hboth.1⟩) (decide_eq_true hboth.2)
  | some row =>
    obtain ⟨hrow, htenant⟩ := (hmem row).mp (List.mem_of_find?_eq_some hfind)
    have hsource : row.request.sourceKey = sourceKey := by simpa using List.find?_some hfind
    rw [← htenant, ← hsource]
    exact (LocalReviewStore.findBySourceKey_of_mem hrow (hsource ▸ hkey)).symm

private theorem putIfAbsent_eq (h : Twin s) {item : ReviewItem}
    (hfresh : s.sqlite.get item.tenant item.reviewId = none) :
    ∃ store, s.sqlite.putIfAbsentBySourceKey item =
        .ok ((s.firestore.putIfAbsentBySourceKey item).1, store) ∧
      (s.firestore.putIfAbsentBySourceKey item).2.docs = store.table := by
  have hput {store : LocalReviewStore} (hok : s.sqlite.put item = .ok store) :
      (s.firestore.put item).docs = store.table := by
    rw [LocalReviewStore.put_table hok, FirestoreReviewStore.put, h]
  simp only [LocalReviewStore.putIfAbsentBySourceKey, FirestoreReviewStore.putIfAbsentBySourceKey]
  by_cases hkey : item.request.sourceKey = ""
  · obtain ⟨store, hok⟩ := LocalReviewStore.put_of_no_source s.sqlite hkey
    rw [if_pos hkey, if_pos hkey, hok]
    exact ⟨store, rfl, hput hok⟩
  · rw [if_neg hkey, if_neg hkey, query_eq h hkey]
    cases hfind : s.sqlite.findBySourceKey item.tenant item.request.sourceKey with
    | some row => exact ⟨s.sqlite, rfl, h⟩
    | none =>
      obtain ⟨store, hok⟩ := LocalReviewStore.put_of_not_found hfind
      simp only [hfresh, hok]
      exact ⟨store, rfl, hput hok⟩

/-- Every call of the console leaves the same rows in both stores. -/
theorem twin_serve (h : Twin s) (hcall : AsConsole s call) : Twin (s.serve call) := by
  cases call with
  | put item =>
    obtain ⟨store, hok⟩ := LocalReviewStore.put_of_kept hcall
    simp only [Twin, serve, LocalReviewStore.answer, FirestoreReviewStore.answer, hok,
      LocalReviewStore.put_table hok, FirestoreReviewStore.put]
    rw [h]
  | putIfAbsentBySourceKey item =>
    obtain ⟨store, hok, hdocs⟩ := putIfAbsent_eq h hcall
    simpa only [Twin, serve, LocalReviewStore.answer, FirestoreReviewStore.answer, hok] using hdocs
  | _ => exact h

/-- Only the order of a list can differ, and it does exactly when the ids do not follow the
time. -/
theorem sameAnswer_iff (h : Twin s) (hcall : AsConsole s call) :
    SameAnswer s call ↔ IdsFollowTime s call := by
  cases call with
  | put item =>
    obtain ⟨store, hok⟩ := LocalReviewStore.put_of_kept hcall
    simp [SameAnswer, IdsFollowTime, LocalReviewStore.answer, FirestoreReviewStore.answer, hok]
  | putIfAbsentBySourceKey item =>
    obtain ⟨store, hok, -⟩ := putIfAbsent_eq h hcall
    simp [SameAnswer, IdsFollowTime, LocalReviewStore.answer, FirestoreReviewStore.answer, hok]
  | get tenant reviewId =>
    simp only [SameAnswer, IdsFollowTime, LocalReviewStore.answer, FirestoreReviewStore.answer,
      LocalReviewStore.get, FirestoreReviewStore.get]
    rw [h]
    simp
  | findBySourceKey tenant sourceKey =>
    simp only [SameAnswer, IdsFollowTime, LocalReviewStore.answer, FirestoreReviewStore.answer,
      FirestoreReviewStore.findBySourceKey, iff_true, Except.ok.injEq]
    split
    · rename_i hkey
      simp [LocalReviewStore.findBySourceKey, hkey]
    · exact (query_eq h ‹_›).symm
  | listPending tenant =>
    rw [IdsFollowTime, ← orderAgrees_perm (listPending_perm s.sqlite tenant),
      LocalReviewStore.listPending, ← ((listings_all h tenant).filter _).eq_iff]
    exact Except.ok.injEq _ _ ▸ Iff.rfl
  | listAll tenant =>
    rw [IdsFollowTime, ← orderAgrees_perm (listAll_perm s.sqlite tenant),
      ← (listings_all h tenant).eq_iff]
    exact Except.ok.injEq _ _ ▸ Iff.rfl

theorem oldestFirst_iff (h : Twin s) : OldestFirst s call ↔ IdsFollowTime s call := by
  cases call with
  | listPending tenant =>
    rw [IdsFollowTime, ← orderAgrees_perm (listPending_perm s.sqlite tenant),
      LocalReviewStore.listPending, ← ((listings_all h tenant).filter _).oldestFirst_iff]
    rfl
  | listAll tenant =>
    rw [IdsFollowTime, ← orderAgrees_perm (listAll_perm s.sqlite tenant),
      ← (listings_all h tenant).oldestFirst_iff]
    rfl
  | _ => exact Iff.rfl

end

/-- Over the calls of the console the two stores answer alike, and equally the managed store
lists oldest first, exactly when every list finds the review ids of its items in the order of
their submission. -/
theorem stores_interchangeable_iff (calls : List ReviewStoreCall)
    (hcalls : Along serve AsConsole empty calls) :
    (Along serve SameAnswer empty calls ↔ Along serve IdsFollowTime empty calls) ∧
    (Along serve OldestFirst empty calls ↔ Along serve IdsFollowTime empty calls) := by
  have hkeep (s : ReviewStores) (call : ReviewStoreCall) (h : Twin s) (hcall : AsConsole s call) :
      Twin (s.serve call) := twin_serve h hcall
  constructor
  · exact along_congr Twin AsConsole (fun s call h hcall _ => hkeep s call h hcall)
      (fun s call h hcall => sameAnswer_iff h hcall) rfl hcalls
  · exact along_congr Twin AsConsole (fun s call h hcall _ => hkeep s call h hcall)
      (fun s call h _ => oldestFirst_iff h) rfl hcalls

end ReviewStores

namespace Demo

def queued (reviewId : String) (submittedAt : DateTime) : ReviewRequest where
  reviewId := reviewId
  tenant := "demo-bank"
  action := "disburse"
  maker := "demo.analyst@bank.example"
  subject := "Acme (FICTIONAL)"
  summary := "disburse facility"
  submittedAt := submittedAt

/-- Two submissions a day apart, and a look at the queue. -/
def listing (first second : String) : List ReviewStoreCall :=
  [.put { request := queued first noon },
    .put { request := queued second (noon.addDays 1) }, .listAll "demo-bank"]

end Demo

/-- Ids that grow with time are listed alike. -/
theorem demo_stores_interchangeable : Along ReviewStores.serve ReviewStores.SameAnswer
    ReviewStores.empty (Demo.listing "rev-1" "rev-2") :=
  (ReviewStores.stores_interchangeable_iff (Demo.listing "rev-1" "rev-2") (by decide)).1.mpr
    (by decide)

/-- The later submission with the smaller id is listed first. -/
theorem ids_order_listing : ¬ ∀ calls,
    Along ReviewStores.serve ReviewStores.AsConsole ReviewStores.empty calls →
    Along ReviewStores.serve ReviewStores.SameAnswer ReviewStores.empty calls := by
  intro h
  obtain ⟨-, -, hlist, -⟩ := h (Demo.listing "rev-2" "rev-1") (by decide)
  have hids := congrArg (Except.map (List.map ReviewItem.reviewId)) hlist
  revert hids
  decide

end ReviewConsole
