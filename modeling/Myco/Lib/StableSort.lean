import Mathlib.Data.List.Basic
import Mathlib.Data.List.Pairwise

/-!
# What a stable sort orders

`List.mergeSort` for a total preorder: elements that tie keep their order, so that a relation holds
down the sorted list just when it holds from every element to each strictly greater one, and
between tied elements in the order they came in.
-/

namespace Myco.Lib

variable {α : Type} {le : α → α → Bool} {l : List α} {a b : α}

/-- `a` and `b` are equivalent in the order. -/
def tied (le : α → α → Bool) (a b : α) : Bool := le a b && le b a

theorem tied_iff : tied le a b ↔ le a b ∧ le b a := by
  simp [tied]

section

variable (htrans : ∀ a b c, le a b → le b c → le a c) (htotal : ∀ a b, le a b || le b a)
include htrans htotal

/-- The elements that tie with `a` keep their order. -/
theorem filter_tied_mergeSort (l : List α) (a : α) :
    (l.mergeSort le).filter (tied le a) = l.filter (tied le a) := by
  have hsorted : (l.filter (tied le a)).Pairwise fun x y => le x y := by
    refine List.pairwise_of_forall_mem_list fun x hx y hy => ?_
    exact htrans x a y (tied_iff.1 (List.mem_filter.1 hx).2).2
      (tied_iff.1 (List.mem_filter.1 hy).2).1
  have hsub := (List.sublist_mergeSort htrans htotal hsorted List.filter_sublist).filter
    (tied le a)
  rw [List.filter_filter] at hsub
  simp only [Bool.and_self] at hsub
  exact (hsub.eq_of_length ((List.mergeSort_perm l le).symm.filter _).length_eq).symm

/-- Two tied elements stand in the sorted list as they stood in the list. -/
theorem pair_sublist_of_tied (h : [a, b].Sublist (l.mergeSort le)) (hab : le a b) (hba : le b a) :
    [a, b].Sublist l := by
  have haa : le a a := htrans a b a hab hba
  have htied := h.filter (tied le a)
  rw [filter_tied_mergeSort htrans htotal, List.filter_cons_of_pos (tied_iff.2 ⟨haa, haa⟩),
    List.filter_cons_of_pos (tied_iff.2 ⟨hab, hba⟩), List.filter_nil] at htied
  exact htied.trans List.filter_sublist

/-- Of two elements that do not tie the smaller one stands first. -/
theorem pair_sublist_of_not_le (ha : a ∈ l) (hb : b ∈ l) (h : ¬ le b a) :
    [a, b].Sublist (l.mergeSort le) := by
  have hab : le a b := by
    have := htotal a b
    simp_all
  have hperm := List.mergeSort_perm l le
  obtain ⟨xs, ys, hsplit⟩ := List.append_of_mem (hperm.mem_iff.2 ha)
  have hb' := hperm.mem_iff.2 hb
  have hsorted := List.pairwise_mergeSort htrans htotal l
  rw [hsplit] at hb' hsorted ⊢
  rcases List.mem_append.1 hb' with hx | hy
  · exact absurd ((List.pairwise_append.1 hsorted).2.2 b hx a List.mem_cons_self) h
  · rcases List.mem_cons.1 hy with rfl | hy
    · exact absurd hab h
    · exact (List.cons_sublist_cons.2 (List.singleton_sublist.2 hy)).trans
        (List.sublist_append_right xs _)

theorem pairwise_mergeSort_iff {R : α → α → Prop} :
    (l.mergeSort le).Pairwise R ↔
      l.Pairwise (fun a b => le a b → le b a → R a b) ∧
        ∀ a ∈ l, ∀ b ∈ l, ¬ le b a → R a b := by
  simp only [List.pairwise_iff_forall_sublist]
  constructor
  · intro h
    refine ⟨fun {a b} hsub hab hba => ?_, fun a ha b hb hba => ?_⟩
    · exact h (List.sublist_mergeSort htrans htotal (by simpa using hab) hsub)
    · exact h (pair_sublist_of_not_le htrans htotal ha hb hba)
  · rintro ⟨htie, hstrict⟩ a b hsub
    have hle : le a b := by
      have hsorted := (List.pairwise_mergeSort htrans htotal l).sublist hsub
      simpa using hsorted
    by_cases hba : le b a
    · exact htie (pair_sublist_of_tied htrans htotal hsub hle hba) hle hba
    · have hperm := List.mergeSort_perm l le
      exact hstrict a (hperm.mem_iff.1 (hsub.subset (by simp))) b
        (hperm.mem_iff.1 (hsub.subset (by simp))) hba

end

end Myco.Lib
