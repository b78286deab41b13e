import Mathlib.Data.Finset.Card
import Mathlib.Logic.Relation

/-!
# Ballots that count distinct votes

A ballot collects votes of distinct voters until the last one needed is in. A voter who is admitted
may also close it. It can be passed exactly when enough admitted voters are left, and one of them
at least: the votes are counted when one is cast, and at no other time.
-/
namespace Ballots
open Relation

inductive Phase where
  | counting
  | passed
  | closed
  deriving DecidableEq, Repr

structure Ballot (α : Type) where
  phase : Phase
  voted : List α

section
variable {α : Type} (admits : α → Prop) (needed : ℤ)

/-- The phase after one more vote. -/
def tallied (votes : ℤ) : Phase := if votes ≥ needed then .passed else .counting

/-- One admitted voter who has not voted casts a vote on an open ballot, or closes it. -/
inductive Step : Ballot α → Ballot α → Prop
  | vote (x : α) (voted : List α) (hadmits : admits x) (hnew : x ∉ voted) :
      Step ⟨.counting, voted⟩ ⟨tallied needed (voted.length + 1), voted ++ [x]⟩
  | close (x : α) (voted : List α) (hadmits : admits x) (hnew : x ∉ voted) :
      Step ⟨.counting, voted⟩ ⟨.closed, voted⟩

def Enough (voted : List α) : Prop :=
  ∃ voters : Finset α, voters.Nonempty ∧ (∀ x ∈ voters, admits x ∧ x ∉ voted) ∧
    needed ≤ voted.length + voters.card

variable {admits needed} {voted : List α} {b : Ballot α}

/-- The votes cast since, and that they were enough if the ballot has passed. -/
structure Cast (admits : α → Prop) (needed : ℤ) (voted : List α) (b : Ballot α) (cast : List α) :
    Prop where
  votes : b.voted = voted ++ cast
  distinct : cast.Nodup
  admitted : ∀ x ∈ cast, admits x ∧ x ∉ voted
  passed : b.phase = .passed → cast ≠ [] ∧ needed ≤ b.voted.length

theorem exists_cast (h : ReflTransGen (Step admits needed) ⟨.counting, voted⟩ b) :
    ∃ cast, Cast admits needed voted b cast := by
  induction h with
  | refl => exact ⟨[], (List.append_nil _).symm, List.nodup_nil, by simp, by simp⟩
  | tail hfirst hlast ih =>
    obtain ⟨cast, hcast⟩ := ih
    cases hlast with
    | close x voted' hadmits hnew =>
      exact ⟨cast, hcast.votes, hcast.distinct, hcast.admitted, by simp⟩
    | vote x voted' hadmits hnew =>
      have hvoted : voted' = voted ++ cast := hcast.votes
      rw [hvoted, List.mem_append, not_or] at hnew
      refine ⟨cast ++ [x], ?_, ?_, ?_, ?_⟩
      · rw [hvoted, List.append_assoc]
      · apply List.nodup_append.mpr
        refine ⟨hcast.distinct, List.nodup_singleton x, ?_⟩
        intro y hy z hz hsame
        rw [hsame, List.mem_singleton.mp hz] at hy
        exact hnew.2 hy
      · intro y hy
        rcases List.mem_append.mp hy with hy | hy
        · exact hcast.admitted y hy
        · rw [List.mem_singleton.mp hy]
          exact ⟨hadmits, hnew.1⟩
      · intro hpassed
        refine ⟨by simp, ?_⟩
        have htally : tallied needed (voted'.length + 1) = .passed := hpassed
        rw [tallied] at htally
        split at htally
        · rename_i hmet
          simp only [List.length_append, List.length_singleton]
          push_cast
          exact hmet
        · cases htally

/-- Votes of the voters on a list, one after another, pass the ballot if they are enough. -/
theorem pass_of_votes {voters : List α} (hvoters : voters ≠ []) (hdistinct : voters.Nodup)
    (hadmits : ∀ x ∈ voters, admits x ∧ x ∉ voted)
    (henough : needed ≤ voted.length + voters.length) :
    ∃ b, ReflTransGen (Step admits needed) ⟨.counting, voted⟩ b ∧ b.phase = .passed := by
  induction voters generalizing voted with
  | nil => exact absurd rfl hvoters
  | cons x voters ih =>
    obtain ⟨hadmitted, hnew⟩ := hadmits x List.mem_cons_self
    have hvote : Step admits needed _ _ := .vote x voted hadmitted hnew
    by_cases hmet : (voted.length : ℤ) + 1 ≥ needed
    · exact ⟨_, .single hvote, if_pos hmet⟩
    · rw [tallied, if_neg hmet] at hvote
      obtain ⟨hx, hrest⟩ := List.nodup_cons.mp hdistinct
      rw [List.length_cons] at henough
      push_cast at henough
      have hmore : voters ≠ [] := by
        intro hnone
        rw [hnone, List.length_nil] at henough
        push_cast at henough
        omega
      have hadmits' : ∀ y ∈ voters, admits y ∧ y ∉ voted ++ [x] := by
        intro y hy
        obtain ⟨hadmitted', hnew'⟩ := hadmits y (List.mem_cons_of_mem _ hy)
        refine ⟨hadmitted', ?_⟩
        intro hmem
        rcases List.mem_append.mp hmem with hold | hsame
        · exact hnew' hold
        · rw [List.mem_singleton.mp hsame] at hy
          exact hx hy
      have hcount : needed ≤ (voted ++ [x]).length + voters.length := by
        rw [List.length_append, List.length_singleton]
        push_cast
        omega
      obtain ⟨b, hreach, hpassed⟩ := ih hmore hrest hadmits' hcount
      exact ⟨b, .head hvote hreach, hpassed⟩

/-- An open ballot can be passed exactly when enough voters are left. -/
theorem passes_iff [DecidableEq α] :
    (∃ b, ReflTransGen (Step admits needed) ⟨.counting, voted⟩ b ∧ b.phase = .passed) ↔
      Enough admits needed voted := by
  constructor
  · intro h
    obtain ⟨b, hreach, hpassed⟩ := h
    obtain ⟨cast, hcast⟩ := exists_cast hreach
    obtain ⟨hsome, hmet⟩ := hcast.passed hpassed
    refine ⟨cast.toFinset, ?_, ?_, ?_⟩
    · rw [List.toFinset_nonempty_iff]
      exact hsome
    · intro x hx
      exact hcast.admitted x (List.mem_toFinset.mp hx)
    · rw [List.toFinset_card_of_nodup hcast.distinct]
      rw [hcast.votes, List.length_append] at hmet
      push_cast at hmet
      exact hmet
  · intro h
    obtain ⟨voters, hsome, hadmits, henough⟩ := h
    have hvoters : voters.toList ≠ [] := by
      intro hnone
      rw [Finset.toList_eq_nil] at hnone
      exact hsome.ne_empty hnone
    have hadmits' : ∀ x ∈ voters.toList, admits x ∧ x ∉ voted := by
      intro x hx
      exact hadmits x (Finset.mem_toList.mp hx)
    rw [← Finset.length_toList] at henough
    exact pass_of_votes hvoters voters.nodup_toList hadmits' henough

theorem enough_iff_list [DecidableEq α] {voters : List α} (hdistinct : voters.Nodup)
    (hvoters : ∀ x, admits x ∧ x ∉ voted ↔ x ∈ voters) :
    Enough admits needed voted ↔ 0 < voters.length ∧ needed ≤ voted.length + voters.length := by
  constructor
  · intro h
    obtain ⟨some, hsome, hadmits, henough⟩ := h
    have hsub : some ⊆ voters.toFinset := by
      intro x hx
      exact List.mem_toFinset.mpr ((hvoters x).mp (hadmits x hx))
    have hcard := Finset.card_le_card hsub
    rw [List.toFinset_card_of_nodup hdistinct] at hcard
    have hpos : 0 < some.card := Finset.card_pos.mpr hsome
    omega
  · intro h
    obtain ⟨hpos, henough⟩ := h
    refine ⟨voters.toFinset, ?_, ?_, ?_⟩
    · rw [List.toFinset_nonempty_iff]
      exact List.ne_nil_of_length_pos hpos
    · intro x hx
      exact (hvoters x).mpr (List.mem_toFinset.mp hx)
    · rw [List.toFinset_card_of_nodup hdistinct]
      exact henough

end

end Ballots
