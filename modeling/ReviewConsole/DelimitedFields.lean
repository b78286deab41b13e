import ReviewConsole.SeparatedWords

/-!
# Fields between delimiters

A text is a sequence of fields between delimiters, and a field is its words. Rendering the fields
and reading the text back gives them again just when no word holds the delimiter.
-/
namespace DelimitedFields
open SeparatedWords

variable {α : Type} (delim blank : α) (p : α → Bool)

/-- The words of each stretch between two delimiters, where there are any. -/
def fields [DecidableEq α] (cs : List α) : List (List (List α)) :=
  ((cs.splitOn delim).map (words p)).filter (fun f => !f.isEmpty)

def render (fs : List (List (List α))) : List α :=
  [delim, blank].intercalate (fs.map [blank].intercalate)

variable {delim blank p} {c : α} {cs ds w : List α} {f : List (List α)}
variable {fs : List (List (List α))}

/-- Splitting at runs of separators gives an empty piece only where the text begins or ends with
one. -/
private theorem splitRuns_ne_nil (hne : cs ≠ []) (hlast : ∀ c ∈ cs.getLast?, p c = false) :
    (∀ w ∈ splitRuns p true cs, w ≠ []) ∧ (∀ w ∈ (splitRuns p false cs).tail, w ≠ []) ∧
      ((∀ c ∈ cs.head?, p c = false) → ∀ w ∈ splitRuns p false cs, w ≠ []) := by
  induction cs with
  | nil => exact absurd rfl hne
  | cons c cs ih =>
    by_cases hnil : cs = []
    · subst hnil
      have hc : p c = false := hlast c rfl
      have hone (b : Bool) : splitRuns p b [c] = [[c]] := by
        rw [splitRuns, if_neg (by simp [hc])]
        rfl
      rw [hone, hone]
      simp
    · obtain ⟨d, cs, rfl⟩ := List.exists_cons_of_ne_nil hnil
      have hlast' : ∀ c ∈ (d :: cs).getLast?, p c = false := by
        intro e he
        exact hlast e (by rwa [List.getLast?_cons_cons])
      obtain ⟨hrun, htail, -⟩ := ih hnil hlast'
      by_cases hc : p c = true
      · refine ⟨?_, ?_, ?_⟩
        · rw [splitRuns, if_pos hc, if_pos rfl]
          exact hrun
        · rw [splitRuns, if_pos hc, if_neg Bool.false_ne_true]
          exact hrun
        · intro hhead
          rw [hhead c rfl] at hc
          cases hc
      · have hpieces (b : Bool) : splitRuns p b (c :: d :: cs) =
            (splitRuns p false (d :: cs)).modifyHead (List.cons c) := by
          rw [splitRuns, if_neg hc]
        rw [hpieces, hpieces]
        generalize splitRuns p false (d :: cs) = pieces at htail
        cases pieces with
        | nil => simp
        | cons piece pieces =>
          rw [List.modifyHead_cons]
          have hall : ∀ w ∈ (c :: piece) :: pieces, w ≠ [] := by
            intro w hw
            rcases List.mem_cons.mp hw with rfl | hw
            · exact List.cons_ne_nil _ _
            · exact htail w hw
          exact ⟨hall, htail, fun _ => hall⟩

theorem splitRuns_eq_words (hne : cs ≠ []) (hhead : ∀ c ∈ cs.head?, p c = false)
    (hlast : ∀ c ∈ cs.getLast?, p c = false) : splitRuns p false cs = words p cs := by
  have hall := (splitRuns_ne_nil hne hlast).2.2 hhead
  rw [← filter_splitRuns false]
  symm
  apply List.filter_eq_self.mpr
  intro w hw
  simpa using hall w hw

theorem splitRuns_trimmed (hne : (cs.dropWhile p).rdropWhile p ≠ []) :
    splitRuns p false ((cs.dropWhile p).rdropWhile p) = words p cs := by
  have hwords : words p ((cs.dropWhile p).rdropWhile p) = words p cs := by
    rw [words_rdropWhile, words_dropWhile]
  rw [← hwords]
  apply splitRuns_eq_words hne
  · intro c hc
    obtain ⟨d, ds, hds⟩ := List.exists_cons_of_ne_nil hne
    rw [hds] at hc
    cases hc
    obtain ⟨rest, hrest⟩ := List.rdropWhile_prefix p (cs.dropWhile p)
    rw [hds, List.cons_append] at hrest
    have hnot := List.head?_dropWhile_not p cs
    rw [← hrest] at hnot
    simpa using hnot
  · intro c hc
    obtain ⟨hlast, rfl⟩ := List.mem_getLast?_eq_getLast hc
    simpa using List.rdropWhile_last_not p _ hlast

theorem words_eq_nil : words p cs = [] ↔ (cs.dropWhile p).rdropWhile p = [] := by
  have hwords : words p ((cs.dropWhile p).rdropWhile p) = words p cs := by
    rw [words_rdropWhile, words_dropWhile]
  constructor
  · intro h
    by_contra hne
    have hlast := List.rdropWhile_last_not p _ hne
    obtain ⟨w, hw, -⟩ := exists_mem_words (List.getLast_mem hne) (by simpa using hlast)
    rw [hwords, h] at hw
    cases hw
  · intro h
    rw [← hwords, h, words_nil]

theorem render_cons_cons {g : List (List α)} : render delim blank (f :: g :: fs) =
    [blank].intercalate f ++ delim :: blank :: render delim blank (g :: fs) := by
  simp only [render, List.map_cons, List.intercalate_cons_cons, List.append_assoc]
  rfl

/-- A field can be written: it has words, each has some length and holds no separator. -/
structure Writable (p : α → Bool) (f : List (List α)) : Prop where
  ne_nil : f ≠ []
  words_ne_nil : ∀ w ∈ f, w ≠ []
  not_sep : ∀ w ∈ f, ∀ c ∈ w, p c = false

theorem Writable.words_intercalate (h : Writable p f) (hblank : p blank = true) :
    words p ([blank].intercalate f) = f :=
  SeparatedWords.words_intercalate hblank h.words_ne_nil h.not_sep

section
variable [DecidableEq α]

theorem fields_append_cons : fields delim p (cs ++ delim :: ds) =
    fields delim p cs ++ fields delim p ds := by
  rw [fields, List.splitOn_append_cons_self, List.map_append, List.filter_append]
  rfl

theorem fields_of_not_mem (h : delim ∉ cs) :
    fields delim p cs = if words p cs = [] then [] else [words p cs] := by
  rw [fields, List.splitOn_eq_singleton h, List.map_singleton]
  cases words p cs <;> rfl

theorem fields_cons_sep (hc : p c = true) (hdelim : c ≠ delim) :
    fields delim p (c :: cs) = fields delim p cs := by
  have hsplit : (c :: cs).splitOn delim = (cs.splitOn delim).modifyHead (List.cons c) := by
    rw [List.splitOn_cons_eq_if_modifyHead, if_neg (by simpa using hdelim)]
  rw [fields, hsplit, fields]
  cases cs.splitOn delim with
  | nil => rfl
  | cons piece pieces =>
    rw [List.modifyHead_cons, List.map_cons, words_cons_sep hc, ← List.map_cons]

theorem not_mem_of_mem_splitOn (h : w ∈ cs.splitOn delim) : delim ∉ w := by
  induction cs generalizing w with
  | nil =>
    rw [List.splitOn_nil, List.mem_singleton] at h
    rw [h]
    exact List.not_mem_nil
  | cons c cs ih =>
    rw [List.splitOn_cons_eq_if_modifyHead] at h
    split at h
    · rcases List.mem_cons.mp h with rfl | h
      · exact List.not_mem_nil
      · exact ih h
    · rename_i hc
      cases hpieces : cs.splitOn delim with
      | nil => exact absurd hpieces (List.splitOn_ne_nil delim cs)
      | cons piece pieces =>
        rw [hpieces] at h ih
        rw [List.modifyHead_cons] at h
        rcases List.mem_cons.mp h with rfl | h
        · intro hmem
          rcases List.mem_cons.mp hmem with rfl | hmem
          · simp at hc
          · exact ih List.mem_cons_self hmem
        · exact ih (List.mem_cons_of_mem _ h)

theorem not_mem_of_mem_fields (hf : f ∈ fields delim p cs) (hw : w ∈ f) : delim ∉ w := by
  obtain ⟨piece, hpiece, rfl⟩ := List.mem_map.mp (List.mem_filter.mp hf).1
  intro hmem
  exact not_mem_of_mem_splitOn hpiece (mem_of_mem_words hw hmem)

private theorem fields_intercalate (h : Writable p f) (hblank : p blank = true)
    (hne : blank ≠ delim) (hdelim : ∀ w ∈ f, delim ∉ w) :
    fields delim p ([blank].intercalate f) = [f] := by
  have hmem : delim ∉ [blank].intercalate f := by
    intro hmem
    rcases mem_intercalate hmem with heq | ⟨w, hw, hmem⟩
    · exact hne heq.symm
    · exact hdelim w hw hmem
  rw [fields_of_not_mem hmem, h.words_intercalate hblank, if_neg h.ne_nil]

theorem fields_render_of_not_mem (hblank : p blank = true) (hne : blank ≠ delim)
    (hfields : ∀ f ∈ fs, Writable p f) (hdelim : ∀ f ∈ fs, ∀ w ∈ f, delim ∉ w) :
    fields delim p (render delim blank fs) = fs := by
  induction fs with
  | nil =>
    have hnil : render delim blank [] = [] := rfl
    rw [hnil, fields_of_not_mem List.not_mem_nil, words_nil]
    rfl
  | cons f fs ih =>
    have hfirst := fields_intercalate (hfields f List.mem_cons_self) hblank hne
      (hdelim f List.mem_cons_self)
    cases fs with
    | nil =>
      rw [render, List.map_singleton, List.intercalate_singleton]
      exact hfirst
    | cons g fs =>
      have hrest := ih (fun f hf => hfields f (List.mem_cons_of_mem _ hf))
        (fun f hf => hdelim f (List.mem_cons_of_mem _ hf))
      rw [render_cons_cons, fields_append_cons, fields_cons_sep hblank hne, hfirst, hrest]
      rfl

end

end DelimitedFields
