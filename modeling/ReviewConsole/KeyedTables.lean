import Mathlib.Data.List.Basic
import Mathlib.Data.List.Nodup
import Mathlib.Data.List.Induction

/-!
# Tables with a unique key

A table keeps its rows in insertion order and holds at most one row for each key. Writing
a row replaces the row of the same key where it stands, or is appended. This is a
dictionary that remembers insertion order, and equally a relation with a primary key.
-/
namespace KeyedTables

variable {κ ν : Type} [DecidableEq κ] {key : ν → κ}

/-- Rows in insertion order, no two with the same key. -/
structure KeyedTable (key : ν → κ) where
  rows : List ν
  unique : (rows.map key).Nodup

namespace KeyedTable

def empty : KeyedTable key := ⟨[], List.nodup_nil⟩

def find? (t : KeyedTable key) (k : κ) : Option ν := t.rows.find? (fun v => key v = k)

private def upsertRows (key : ν → κ) (rows : List ν) (v : ν) : List ν :=
  if key v ∈ rows.map key then rows.map (fun w => if key w = key v then v else w)
  else rows ++ [v]

private theorem map_key_replace (rows : List ν) (v : ν) :
    (rows.map (fun w => if key w = key v then v else w)).map key = rows.map key := by
  rw [List.map_map]
  apply List.map_congr_left
  intro w _
  by_cases h : key w = key v <;> simp [h]

private theorem upsertRows_nodup {rows : List ν} (h : (rows.map key).Nodup) (v : ν) :
    ((upsertRows key rows v).map key).Nodup := by
  simp only [upsertRows]
  split
  · rw [map_key_replace]
    exact h
  · rename_i hv
    rw [List.map_append, List.nodup_append]
    refine ⟨h, by simp, ?_⟩
    rintro a ha b hb rfl
    simp only [List.map_cons, List.map_nil, List.mem_singleton] at hb
    exact hv (hb ▸ ha)

/-- Insert the row, or replace the row with its key where it stands. -/
def upsert (t : KeyedTable key) (v : ν) : KeyedTable key :=
  ⟨upsertRows key t.rows v, upsertRows_nodup t.unique v⟩

def erase (t : KeyedTable key) (k : κ) : KeyedTable key :=
  ⟨t.rows.filter (fun v => key v ≠ k), t.unique.sublist (List.filter_sublist.map key)⟩

def restrict (t : KeyedTable key) (p : κ → Bool) : KeyedTable key :=
  ⟨t.rows.filter (fun v => p (key v)), t.unique.sublist (List.filter_sublist.map key)⟩

variable {t : KeyedTable key} {k : κ} {v w : ν}

@[simp] theorem find?_empty : (empty : KeyedTable key).find? k = none := rfl

omit [DecidableEq κ] in
@[ext] theorem ext {t u : KeyedTable key} (h : t.rows = u.rows) : t = u := by
  cases t; cases u; cases h; rfl

theorem key_of_find? (h : t.find? k = some v) : key v = k := by
  simpa using List.find?_some h

theorem mem_of_find? (h : t.find? k = some v) : v ∈ t.rows := List.mem_of_find?_eq_some h

private theorem find?_of_mem_rows {rows : List ν} (hn : (rows.map key).Nodup) (hv : v ∈ rows) :
    rows.find? (fun w => key w = key v) = some v := by
  induction rows with
  | nil => simp at hv
  | cons a rows ih =>
    rw [List.map_cons, List.nodup_cons] at hn
    by_cases ha : key a = key v
    · rcases List.mem_cons.mp hv with rfl | hv
      · simp
      · exact absurd (List.mem_map.mpr ⟨v, hv, ha.symm⟩) hn.1
    · rcases List.mem_cons.mp hv with rfl | hv
      · exact absurd rfl ha
      · rw [List.find?_cons_of_neg (by simpa using ha)]
        exact ih hn.2 hv

theorem find?_of_mem (h : v ∈ t.rows) : t.find? (key v) = some v := find?_of_mem_rows t.unique h

theorem mem_iff_find? : v ∈ t.rows ↔ t.find? (key v) = some v :=
  ⟨find?_of_mem, mem_of_find?⟩

theorem find?_eq_none : t.find? k = none ↔ ∀ v ∈ t.rows, key v ≠ k := by
  simp [find?]

private theorem find?_replace (rows : List ν) :
    (rows.map (fun w => if key w = key v then v else w)).find? (fun w => key w = k) =
      if k = key v then (if key v ∈ rows.map key then some v else none)
      else rows.find? (fun w => key w = k) := by
  induction rows with
  | nil => simp
  | cons a rows ih =>
    rw [List.map_cons, List.find?_cons, List.find?_cons, ih]
    by_cases hk : k = key v
    · subst hk
      by_cases ha : key a = key v
      · simp [ha]
      · simp [ha, Ne.symm ha]
    · by_cases ha : key a = key v
      · simp [ha, hk, Ne.symm hk]
      · simp [ha, hk]

@[simp] theorem find?_upsert_self : (t.upsert v).find? (key v) = some v := by
  unfold upsert upsertRows find?
  split
  · rename_i h
    rw [find?_replace]
    simp [h]
  · rename_i h
    rw [List.find?_append, List.find?_eq_none.mpr]
    · simp
    · intro w hw he
      exact h (List.mem_map.mpr ⟨w, hw, by simpa using he⟩)

theorem find?_upsert_of_ne (h : k ≠ key v) : (t.upsert v).find? k = t.find? k := by
  unfold upsert upsertRows find?
  split
  · rw [find?_replace]
    simp [h]
  · simp [List.find?_append, Ne.symm h]

theorem find?_upsert : (t.upsert v).find? k = if k = key v then some v else t.find? k := by
  split
  · rename_i h
    rw [h, find?_upsert_self]
  · exact find?_upsert_of_ne ‹_›

theorem mem_upsert : w ∈ (t.upsert v).rows ↔ w = v ∨ (w ∈ t.rows ∧ key w ≠ key v) := by
  rw [mem_iff_find?, find?_upsert, mem_iff_find?]
  by_cases h : key w = key v
  · simp [h, eq_comm]
  · simp only [h, if_false, ne_eq, not_false_eq_true, and_true]
    refine ⟨Or.inr, fun hw => hw.resolve_left ?_⟩
    rintro rfl
    exact h rfl

theorem mem_foldl_upsert {vs : List ν} (h : w ∈ (vs.foldl upsert t).rows) :
    w ∈ vs ∨ w ∈ t.rows := by
  induction vs generalizing t with
  | nil => exact Or.inr h
  | cons u vs ih =>
    rcases ih h with hmem | hmem
    · exact Or.inl (List.mem_cons_of_mem _ hmem)
    · rcases mem_upsert.mp hmem with rfl | ⟨hmem, -⟩
      · exact Or.inl List.mem_cons_self
      · exact Or.inr hmem

theorem rows_upsert_of_fresh (h : t.find? (key v) = none) : (t.upsert v).rows = t.rows ++ [v] := by
  refine if_neg (fun hv => ?_)
  obtain ⟨w, hw, he⟩ := List.mem_map.mp hv
  exact find?_eq_none.mp h w hw he

theorem length_filter_upsert_le {p : ν → Bool} (h : t.find? (key v) = some w)
    (hp : p v = true → p w = true) :
    ((t.upsert v).rows.filter p).length ≤ (t.rows.filter p).length := by
  have hmem : key v ∈ t.rows.map key :=
    List.mem_map.mpr ⟨w, mem_of_find? h, key_of_find? h⟩
  have hrows : (t.upsert v).rows = t.rows.map (fun u => if key u = key v then v else u) :=
    if_pos hmem
  rw [hrows, ← List.countP_eq_length_filter, ← List.countP_eq_length_filter, List.countP_map]
  apply List.countP_mono_left
  intro u hu hpu
  by_cases hkey : key u = key v
  · have hsame : u = w := by
      have hfind := find?_of_mem hu
      rw [hkey, h] at hfind
      exact (Option.some.inj hfind).symm
    rw [hsame]
    exact hp (by simpa [hkey] using hpu)
  · simpa [hkey] using hpu

section
variable {p : κ → Bool}

private theorem filter_replace (rows : List ν) :
    (rows.map (fun w => if key w = key v then v else w)).filter (fun w => p (key w)) =
      (rows.filter (fun w => p (key w))).map (fun w => if key w = key v then v else w) := by
  rw [List.filter_map]
  congr 1
  apply List.filter_congr
  intro w _
  by_cases h : key w = key v <;> simp [h]

theorem restrict_upsert_of_pos (h : p (key v) = true) :
    (t.upsert v).restrict p = (t.restrict p).upsert v := by
  have hmem : key v ∈ (t.rows.filter (fun w => p (key w))).map key ↔ key v ∈ t.rows.map key := by
    simp only [List.mem_map, List.mem_filter]
    constructor
    · rintro ⟨w, ⟨hw, -⟩, he⟩
      exact ⟨w, hw, he⟩
    · rintro ⟨w, hw, he⟩
      exact ⟨w, ⟨hw, by rw [he]; exact h⟩, he⟩
  ext1
  simp only [restrict, upsert, upsertRows, hmem]
  split
  · exact filter_replace t.rows
  · simp [List.filter_append, h]

theorem restrict_upsert_of_neg (h : p (key v) = false) :
    (t.upsert v).restrict p = t.restrict p := by
  ext1
  simp only [restrict, upsert, upsertRows]
  split
  · rw [filter_replace]
    refine (List.map_congr_left ?_).trans (List.map_id _)
    intro w hw
    rw [List.mem_filter] at hw
    exact if_neg (fun he => by simp [he, h] at hw)
  · simp [List.filter_append, h]

omit [DecidableEq κ] in
theorem mem_restrict : v ∈ (t.restrict p).rows ↔ v ∈ t.rows ∧ p (key v) = true := List.mem_filter

theorem find?_restrict (h : p k = true) : (t.restrict p).find? k = t.find? k := by
  simp only [restrict, find?, List.find?_filter]
  apply congrArg (fun q => t.rows.find? q)
  funext v
  by_cases hv : key v = k <;> simp [hv, h]

theorem restrict_erase : (t.erase k).restrict p = (t.restrict p).erase k := by
  ext1
  exact List.filter_comm _ _ _

theorem restrict_erase_of_neg (h : p k = false) : (t.erase k).restrict p = t.restrict p := by
  ext1
  simp only [restrict, erase, List.filter_filter]
  apply List.filter_congr
  intro v _
  by_cases hv : key v = k <;> simp [hv, h]

omit [DecidableEq κ] in
@[simp] theorem restrict_restrict : (t.restrict p).restrict p = t.restrict p := by
  ext1
  simp [restrict]

/-- Writing rows writes, among the rows that meet `p`, those that do. -/
theorem restrict_foldl_upsert (vs : List ν) :
    (vs.foldl upsert t).restrict p =
      (vs.filter (fun v => p (key v))).foldl upsert (t.restrict p) := by
  induction vs generalizing t with
  | nil => rfl
  | cons v vs ih =>
    rw [List.foldl_cons, ih]
    cases hv : p (key v) with
    | true =>
      rw [restrict_upsert_of_pos hv, List.filter_cons, if_pos hv, List.foldl_cons]
    | false =>
      rw [restrict_upsert_of_neg hv, List.filter_cons, if_neg (by simp [hv])]

theorem restrict_foldl_upsert_of_pos {vs : List ν} (h : ∀ v ∈ vs, p (key v) = true) :
    (vs.foldl upsert t).restrict p = vs.foldl upsert (t.restrict p) := by
  rw [restrict_foldl_upsert, List.filter_eq_self.mpr h]

theorem restrict_foldl_upsert_of_neg {vs : List ν} (h : ∀ v ∈ vs, p (key v) = false) :
    (vs.foldl upsert t).restrict p = t.restrict p := by
  rw [restrict_foldl_upsert, List.filter_eq_nil_iff.mpr (fun v hv => by simp [h v hv]),
    List.foldl_nil]

end

theorem rows_foldl_upsert {vs : List ν} (h : ((t.rows ++ vs).map key).Nodup) :
    (vs.foldl upsert t).rows = t.rows ++ vs := by
  induction vs generalizing t with
  | nil => simp
  | cons v vs ih =>
    have hfresh : t.find? (key v) = none := by
      rw [find?_eq_none]
      intro w hw he
      rw [List.map_append, List.nodup_append] at h
      exact h.2.2 (key w) (List.mem_map_of_mem hw) (key v) (by simp) he
    have hrows : (t.upsert v).rows = t.rows ++ [v] := rows_upsert_of_fresh hfresh
    rw [List.foldl_cons, ih (by simpa [hrows] using h), hrows]
    simp

theorem foldl_upsert_eq_empty {vs : List ν} (h : (vs.foldl upsert t).rows = []) : vs = [] := by
  induction vs using List.reverseRecOn with
  | nil => rfl
  | append_singleton vs v ih =>
    rw [List.foldl_append, List.foldl_cons, List.foldl_nil] at h
    have hv : v ∈ ((vs.foldl upsert t).upsert v).rows := mem_upsert.mpr (Or.inl rfl)
    rw [h] at hv
    cases hv

theorem rows_foldl_erase (ks : List κ) :
    (ks.foldl erase t).rows = t.rows.filter (fun v => key v ∉ ks) := by
  induction ks generalizing t with
  | nil => simp
  | cons k ks ih =>
    rw [List.foldl_cons, ih, erase, List.filter_filter]
    apply List.filter_congr
    intro v _
    by_cases h : key v = k <;> simp [h]

end KeyedTable
end KeyedTables
