import Mathlib.Data.List.DropRight
import Mathlib.Data.List.Basic

/-!
# Words between separators

The words of a text are its longest pieces without a separator. Splitting at each separator, or
at each run of separators, gives them between empty pieces. Joining words by one separator and
splitting again gives them back.
-/
namespace SeparatedWords

variable {α : Type} (p : α → Bool)

def words (cs : List α) : List (List α) := (cs.splitOnP p).filter (fun w => !w.isEmpty)

/-- The pieces between runs of separators. `inRun` says that the last character was one. -/
def splitRuns (inRun : Bool) : List α → List (List α)
  | [] => [[]]
  | c :: cs =>
    if p c then (if inRun then splitRuns true cs else [] :: splitRuns true cs)
    else (splitRuns false cs).modifyHead (List.cons c)

/-- A piece of the text with a separator, or an end of the text, on either side. -/
def StandsAlone (w cs : List α) : Prop :=
  ∃ before after, cs = before ++ w ++ after ∧
    (∀ c ∈ before.getLast?, p c = true) ∧ ∀ c ∈ after.head?, p c = true

variable {p} {q : α → Bool} {c sep : α} {w cs ds : List α} {ws : List (List α)}

@[simp] theorem words_nil : words p [] = [] := by
  rw [words, List.splitOnP_nil]
  rfl

theorem words_append_cons (h : p sep = true) :
    words p (cs ++ sep :: ds) = words p cs ++ words p ds := by
  rw [words, List.splitOnP_append_cons cs ds h, List.filter_append]
  rfl

theorem words_cons_sep (h : p sep = true) : words p (sep :: ds) = words p ds := by
  have hparts : words p ([] ++ sep :: ds) = words p [] ++ words p ds := words_append_cons h
  simpa using hparts

theorem words_append_seps (h : ∀ c ∈ ds, p c = true) : words p (cs ++ ds) = words p cs := by
  induction ds using List.reverseRecOn with
  | nil => rw [List.append_nil]
  | append_singleton ds sep ih =>
    have hsep : p sep = true := h sep (by simp)
    have hlater : words p (cs ++ (ds ++ [sep])) = words p (cs ++ ds) ++ words p [] := by
      rw [← List.append_assoc]
      exact words_append_cons hsep
    rw [hlater, ih (fun c hc => h c (by simp [hc])), words_nil, List.append_nil]

theorem words_seps_append (h : ∀ c ∈ cs, p c = true) : words p (cs ++ ds) = words p ds := by
  induction cs with
  | nil => rfl
  | cons sep cs ih =>
    rw [List.cons_append, words_cons_sep (h sep List.mem_cons_self)]
    exact ih (fun c hc => h c (List.mem_cons_of_mem _ hc))

theorem words_eq_singleton (hw : w ≠ []) (h : ∀ c ∈ w, p c = false) : words p w = [w] := by
  rw [words, List.splitOnP_eq_singleton h]
  cases w with
  | nil => exact absurd rfl hw
  | cons c w => rfl

theorem words_dropWhile : words p (cs.dropWhile p) = words p cs := by
  have hparts : words p (cs.takeWhile p ++ cs.dropWhile p) = words p (cs.dropWhile p) :=
    words_seps_append (fun c hc => List.mem_takeWhile_imp hc)
  rw [← hparts, List.takeWhile_append_dropWhile]

theorem words_rdropWhile : words p (cs.rdropWhile p) = words p cs := by
  have hparts : words p (cs.rdropWhile p ++ cs.rtakeWhile p) = words p (cs.rdropWhile p) :=
    words_append_seps (fun c hc => List.mem_rtakeWhile_imp hc)
  rw [← hparts, List.rdropWhile_append_rtakeWhile]

theorem words_congr (h : ∀ c ∈ cs, p c = q c) : words p cs = words q cs := by
  have hpieces : cs.splitOnP p = cs.splitOnP q := by
    induction cs with
    | nil => rw [List.splitOnP_nil, List.splitOnP_nil]
    | cons c cs ih =>
      rw [List.splitOnP_cons_eq_if_modifyHead, List.splitOnP_cons_eq_if_modifyHead,
        h c List.mem_cons_self, ih (fun d hd => h d (List.mem_cons_of_mem _ hd))]
  rw [words, words, hpieces]

/-- The pieces between runs of separators are the words, once the empty ones are dropped. -/
theorem filter_splitRuns (inRun : Bool) :
    (splitRuns p inRun cs).filter (fun w => !w.isEmpty) = words p cs := by
  -- `begun` is what was read of the first piece before the text at hand
  have hboth : ((splitRuns p true cs).filter (fun w => !w.isEmpty) = words p cs) ∧
      ∀ begun, ((splitRuns p false cs).modifyHead (begun ++ ·)).filter (fun w => !w.isEmpty) =
        ((cs.splitOnP p).modifyHead (begun ++ ·)).filter (fun w => !w.isEmpty) := by
    induction cs with
    | nil => exact ⟨by rw [words, List.splitOnP_nil]; rfl, fun _ => by rw [List.splitOnP_nil]; rfl⟩
    | cons c cs ih =>
      obtain ⟨hrun, hword⟩ := ih
      by_cases hc : p c = true
      · constructor
        · rw [words_cons_sep hc, ← hrun, splitRuns, if_pos hc, if_pos rfl]
        · intro begun
          rw [splitRuns, if_pos hc, if_neg Bool.false_ne_true,
            List.splitOnP_cons_eq_if_modifyHead, if_pos hc, List.modifyHead_cons,
            List.modifyHead_cons, List.filter_cons, List.filter_cons, hrun]
          rfl
      · have hsplit : (c :: cs).splitOnP p = (cs.splitOnP p).modifyHead ([c] ++ ·) := by
          rw [List.splitOnP_cons_eq_if_modifyHead, if_neg hc]
          rfl
        have hruns (b : Bool) :
            splitRuns p b (c :: cs) = (splitRuns p false cs).modifyHead ([c] ++ ·) := by
          rw [splitRuns, if_neg hc]
          rfl
        constructor
        · rw [hruns, words, hsplit]
          exact hword [c]
        · intro begun
          rw [hruns, hsplit, List.modifyHead_modifyHead, List.modifyHead_modifyHead]
          have happend : (begun ++ ·) ∘ ([c] ++ ·) = ((begun ++ [c]) ++ ·) := by
            funext w
            simp
          rw [happend]
          exact hword (begun ++ [c])
  cases inRun with
  | true => exact hboth.1
  | false =>
    have hnothing : (([] : List α) ++ ·) = id := rfl
    have hnil := hboth.2 []
    rw [hnothing, List.modifyHead_id] at hnil
    exact hnil

private theorem words_before_seps (hw : w ≠ []) (hsep : ∀ c ∈ w, p c = false)
    (hafter : ∀ c ∈ ds.head?, p c = true) : words p (w ++ ds) = w :: words p ds := by
  cases ds with
  | nil => rw [List.append_nil, words_eq_singleton hw hsep, words_nil]
  | cons sep ds =>
    have hhead : p sep = true := hafter sep rfl
    rw [words_append_cons hhead, words_eq_singleton hw hsep, words_cons_sep hhead]
    rfl

private theorem head?_dropWhile_word : ∀ c ∈ (cs.dropWhile (fun c => !p c)).head?, p c = true := by
  intro c hc
  have hnot := List.head?_dropWhile_not (fun c => !p c) cs
  rw [hc] at hnot
  simpa using hnot

private theorem getLast?_rdropWhile_word :
    ∀ c ∈ (cs.rdropWhile (fun c => !p c)).getLast?, p c = true := by
  rw [List.rdropWhile, List.getLast?_reverse]
  exact head?_dropWhile_word

private theorem standsAlone_of_mem_words (h : w ∈ words p cs) :
    w ≠ [] ∧ (∀ c ∈ w, p c = false) ∧ StandsAlone p w cs := by
  induction hlen : cs.length using Nat.strong_induction_on generalizing cs with
  | _ n ih =>
    subst hlen
    -- the text is a first word, which may be empty, and from its first separator on the rest
    have hparts := @List.takeWhile_append_dropWhile α (fun c => !p c) cs
    have hfirst : ∀ c ∈ cs.takeWhile (fun c => !p c), p c = false := by
      intro c hc
      simpa using List.mem_takeWhile_imp hc
    generalize cs.takeWhile (fun c => !p c) = first at hparts hfirst
    have hwhole (rest : List α) (hrest : ∀ c ∈ rest.head?, p c = true)
        (hmem : w ∈ words p first) : w ≠ [] ∧ (∀ c ∈ w, p c = false) ∧
          StandsAlone p w (first ++ rest) := by
      by_cases hempty : first = []
      · rw [hempty, words_nil] at hmem
        cases hmem
      · rw [words_eq_singleton hempty hfirst, List.mem_singleton] at hmem
        subst hmem
        exact ⟨hempty, hfirst, [], rest, rfl, by simp, hrest⟩
    cases hrest : cs.dropWhile (fun c => !p c) with
    | nil =>
      rw [hrest, List.append_nil] at hparts
      subst hparts
      simpa using hwhole [] (by simp) h
    | cons sep rest =>
      have hsep : p sep = true := head?_dropWhile_word sep (by rw [hrest]; rfl)
      rw [hrest] at hparts
      subst hparts
      rw [words_append_cons hsep] at h
      cases List.mem_append.mp h with
      | inl hmem => exact hwhole (sep :: rest) (by simpa using hsep) hmem
      | inr hmem =>
        have hshort : rest.length < (first ++ sep :: rest).length := by
          simp only [List.length_append, List.length_cons]
          omega
        obtain ⟨hne, hnone, before, after, hcut, hbefore, hafter⟩ := ih _ hshort hmem rfl
        refine ⟨hne, hnone, first ++ sep :: before, after, by simp [hcut], ?_, hafter⟩
        intro c hc
        rw [List.getLast?_append_cons, List.getLast?_cons] at hc
        cases hlast : before.getLast? with
        | none =>
          rw [hlast] at hc
          cases hc
          exact hsep
        | some d =>
          rw [hlast] at hc
          cases hc
          exact hbefore d hlast

/-- The words of a text are the pieces that have some length, hold no separator and stand
alone. -/
theorem mem_words :
    w ∈ words p cs ↔ w ≠ [] ∧ (∀ c ∈ w, p c = false) ∧ StandsAlone p w cs := by
  constructor
  · exact standsAlone_of_mem_words
  · intro h
    obtain ⟨hne, hnone, before, after, rfl, hbefore, hafter⟩ := h
    have hlater : words p (w ++ after) = w :: words p after := words_before_seps hne hnone hafter
    rw [List.append_assoc]
    cases before using List.reverseRecOn with
    | nil => exact hlater ▸ List.mem_cons_self
    | append_singleton before sep =>
      have hsep : p sep = true := hbefore sep (by simp)
      have hcut : words p (before ++ [sep] ++ (w ++ after)) =
          words p before ++ words p (w ++ after) := by
        rw [List.append_assoc]
        exact words_append_cons hsep
      rw [hcut, hlater]
      exact List.mem_append_right _ List.mem_cons_self

theorem exists_mem_words (hc : c ∈ cs) (hsep : p c = false) : ∃ w ∈ words p cs, c ∈ w := by
  obtain ⟨left, right, rfl⟩ := List.append_of_mem hc
  have hleft := @List.rdropWhile_append_rtakeWhile α (fun c => !p c) left
  have hright := @List.takeWhile_append_dropWhile α (fun c => !p c) right
  refine ⟨left.rtakeWhile (fun c => !p c) ++ c :: right.takeWhile (fun c => !p c),
    mem_words.mpr ⟨by simp, ?_, left.rdropWhile (fun c => !p c),
      right.dropWhile (fun c => !p c), ?_, getLast?_rdropWhile_word, head?_dropWhile_word⟩, by simp⟩
  · intro d hd
    rw [List.mem_append, List.mem_cons] at hd
    obtain hd | rfl | hd := hd
    · simpa using List.mem_rtakeWhile_imp hd
    · exact hsep
    · simpa using List.mem_takeWhile_imp hd
  · rw [List.append_assoc, List.append_assoc, List.cons_append, hright, ← List.append_assoc, hleft]

theorem ne_nil_of_mem_words (h : w ∈ words p cs) : w ≠ [] := (mem_words.mp h).1

theorem not_sep_of_mem_words (h : w ∈ words p cs) (hc : c ∈ w) : p c = false :=
  (mem_words.mp h).2.1 c hc

theorem mem_of_mem_words (h : w ∈ words p cs) (hc : c ∈ w) : c ∈ cs := by
  obtain ⟨-, -, before, after, hcut, -, -⟩ := mem_words.mp h
  rw [hcut]
  simp [hc]

/-- Pieces that have some length and hold no separator are the words of their join. -/
theorem words_intercalate (hsep : p sep = true) (hne : ∀ w ∈ ws, w ≠ [])
    (hnone : ∀ w ∈ ws, ∀ c ∈ w, p c = false) : words p ([sep].intercalate ws) = ws := by
  induction ws with
  | nil => exact words_nil
  | cons w ws ih =>
    have hfirst := words_eq_singleton (hne w List.mem_cons_self) (hnone w List.mem_cons_self)
    cases ws with
    | nil => rw [List.intercalate_singleton, hfirst]
    | cons v ws =>
      rw [List.intercalate_cons_cons, List.append_assoc, List.singleton_append,
        words_append_cons hsep, hfirst,
        ih (fun u hu => hne u (List.mem_cons_of_mem _ hu))
          (fun u hu => hnone u (List.mem_cons_of_mem _ hu))]
      rfl

theorem words_intercalate_words (hsep : p sep = true) :
    words p ([sep].intercalate (words p cs)) = words p cs :=
  words_intercalate hsep (fun _ hw => ne_nil_of_mem_words hw)
    (fun _ hw _ hc => not_sep_of_mem_words hw hc)

theorem intercalate_words_eq_nil (hsep : p sep = true) :
    [sep].intercalate (words p cs) = [] ↔ words p cs = [] := by
  constructor
  · intro h
    have hwords : words p ([sep].intercalate (words p cs)) = words p cs :=
      words_intercalate_words hsep
    rw [h, words_nil] at hwords
    exact hwords.symm
  · intro h
    rw [h]
    rfl

theorem splitOn_intercalate_words [DecidableEq α] (hsep : p sep = true) (h : words p cs ≠ []) :
    ([sep].intercalate (words p cs)).splitOn sep = words p cs := by
  apply List.splitOn_intercalate
  · intro w hw hmem
    have hnone := not_sep_of_mem_words hw hmem
    rw [hsep] at hnone
    cases hnone
  · exact h

theorem mem_intercalate (h : c ∈ [sep].intercalate ws) : c = sep ∨ ∃ w ∈ ws, c ∈ w := by
  induction ws with
  | nil => cases h
  | cons w ws ih =>
    cases ws with
    | nil =>
      rw [List.intercalate_singleton] at h
      exact Or.inr ⟨w, List.mem_cons_self, h⟩
    | cons v ws =>
      rw [List.intercalate_cons_cons, List.append_assoc, List.mem_append,
        List.mem_append, List.mem_singleton] at h
      obtain hw | hsep | hlater := h
      · exact Or.inr ⟨w, List.mem_cons_self, hw⟩
      · exact Or.inl hsep
      · obtain hsep | ⟨u, hu, hc⟩ := ih hlater
        · exact Or.inl hsep
        · exact Or.inr ⟨u, List.mem_cons_of_mem _ hu, hc⟩

theorem mem_intercalate_of_mem (hw : w ∈ ws) (hc : c ∈ w) : c ∈ [sep].intercalate ws := by
  induction ws with
  | nil => cases hw
  | cons v ws ih =>
    cases ws with
    | nil =>
      rw [List.intercalate_singleton]
      exact List.mem_singleton.mp hw ▸ hc
    | cons u ws =>
      rw [List.intercalate_cons_cons, List.append_assoc, List.mem_append]
      cases List.mem_cons.mp hw with
      | inl heq => exact Or.inl (heq ▸ hc)
      | inr hlater => exact Or.inr (List.mem_append_right _ (ih hlater))

end SeparatedWords
