import Mathlib.Data.List.Basic
import Mathlib.Data.List.Induction
import Mathlib.Data.List.Sort

/-!
# Removing entries by swapping the last one in

`swapRemove` is `Vec::swap_remove`. A loop marks entries and then removes the marked ones, the last
first: what it leaves are the unmarked ones, in some order (`sweep_perm`). No removal of such a loop
is out of bounds, since what is removed stands behind all that is still to go (`sweepAt_perm`).
-/

namespace Myco.Lib

variable {α : Type}

/-- Puts the last entry in the place of the `i`th. -/
def swapRemove (xs : List α) (i : Nat) : List α :=
  match xs.getLast? with
  | some last => (xs.set i last).dropLast
  | none => xs

/-- The places of the marked entries, from `k` on. -/
def markedFrom : Nat → List (α × Bool) → List Nat
  | _, [] => []
  | k, (_, true) :: xs => k :: markedFrom (k + 1) xs
  | k, (_, false) :: xs => markedFrom (k + 1) xs

/-- `for idx in indices_to_remove.into_iter().rev() { xs.swap_remove(idx); }` -/
def sweep (xs : List (α × Bool)) : List α :=
  (markedFrom 0 xs).foldr (fun i ys => swapRemove ys i) (xs.map Prod.fst)

/-- The entries that are not marked. -/
def unmarked (xs : List (α × Bool)) : List α := (xs.filter fun e => !e.2).map Prod.fst

theorem swapRemove_append {xs ys : List α} {x : α} :
    ∃ zs, zs.Perm ys ∧ swapRemove (xs ++ x :: ys) xs.length = xs ++ zs := by
  rcases List.eq_nil_or_concat' ys with rfl | ⟨ys, y, rfl⟩
  · exact ⟨[], List.Perm.refl _, by simp [swapRemove]⟩
  · have hlast : (xs ++ x :: (ys ++ [y])).getLast? = some y := by
      rw [← List.cons_append, ← List.append_assoc]
      exact List.getLast?_concat
    refine ⟨y :: ys, (List.perm_append_singleton y ys).symm, ?_⟩
    rw [swapRemove, hlast]
    simp only [List.set_append_right xs.length y (Nat.le_refl _), Nat.sub_self, List.set_cons_zero]
    rw [← List.cons_append, ← List.append_assoc, List.dropLast_concat]

theorem markedFrom_append {k : Nat} {xs ys : List (α × Bool)} :
    markedFrom k (xs ++ ys) = markedFrom k xs ++ markedFrom (k + xs.length) ys := by
  induction xs generalizing k with
  | nil => simp [markedFrom]
  | cons x xs ih =>
    obtain ⟨x, b⟩ := x
    have hk : k + 1 + xs.length = k + (xs.length + 1) := by omega
    cases b with
    | true => simp only [List.cons_append, markedFrom, ih, List.length_cons, hk]
    | false => simp only [List.cons_append, markedFrom, ih, List.length_cons, hk]

/-- The marked entries go, whatever stands behind them. -/
theorem sweep_perm_append {xs : List (α × Bool)} {ys : List α} :
    ((markedFrom 0 xs).foldr (fun i ys => swapRemove ys i) (xs.map Prod.fst ++ ys)).Perm
      (unmarked xs ++ ys) := by
  induction xs using List.reverseRecOn generalizing ys with
  | nil => simp [markedFrom, unmarked]
  | append_singleton xs x ih =>
    obtain ⟨x, b⟩ := x
    rw [markedFrom_append, List.foldr_append, List.map_append, Nat.zero_add]
    cases b with
    | false =>
      simp only [markedFrom, List.foldr_nil, List.map_cons, List.map_nil, List.append_assoc,
        List.singleton_append]
      refine ih.trans ?_
      simp [unmarked]
    | true =>
      obtain ⟨zs, hperm, hzs⟩ := @swapRemove_append _ (xs.map Prod.fst) ys x
      rw [List.length_map] at hzs
      simp only [markedFrom, List.foldr_cons, List.foldr_nil, List.map_cons, List.map_nil,
        List.append_assoc, List.singleton_append, hzs]
      refine ih.trans ?_
      simpa [unmarked] using List.Perm.append_left _ hperm

theorem sweep_perm {xs : List (α × Bool)} : (sweep xs).Perm (unmarked xs) := by
  simpa [sweep] using @sweep_perm_append _ xs []

/-! ### What is known of the entries -/

theorem swapRemove_map {β : Type} {f : α → β} {xs : List α} {i : Nat} :
    swapRemove (xs.map f) i = (swapRemove xs i).map f := by
  unfold swapRemove
  rw [List.getLast?_map]
  cases xs.getLast? with
  | none => rfl
  | some last =>
    dsimp only [Option.map_some]
    rw [← List.map_set, List.map_dropLast]

theorem markedFrom_map {β : Type} {f : α → β} {k : Nat} {xs : List (α × Bool)} :
    markedFrom k (xs.map fun e => (f e.1, e.2)) = markedFrom k xs := by
  induction xs generalizing k with
  | nil => rfl
  | cons x xs ih =>
    obtain ⟨x, b⟩ := x
    cases b <;> simp only [List.map_cons, markedFrom, ih]

/-- The sweep does not look at the entries. -/
theorem sweep_map {β : Type} {f : α → β} {xs : List (α × Bool)} :
    sweep (xs.map fun e => (f e.1, e.2)) = (sweep xs).map f := by
  have hmap : (xs.map fun e => (f e.1, e.2)).map Prod.fst = (xs.map Prod.fst).map f := by
    rw [List.map_map, List.map_map]
    rfl
  unfold sweep
  rw [markedFrom_map, hmap]
  induction markedFrom 0 xs with
  | nil => rfl
  | cons i is ih => rw [List.foldr_cons, List.foldr_cons, ih, swapRemove_map]

/-! ### Removing at a list of places -/

/-- `Vec::swap_remove`, which panics past the end. -/
def swapRemove? (xs : List α) (i : Nat) : Option (List α) :=
  if i < xs.length then some (swapRemove xs i) else none

/-- `for idx in indices.into_iter().rev() { xs.swap_remove(idx); }` -/
def sweepAt (xs : List α) (indices : List Nat) : Option (List α) :=
  indices.reverse.foldlM swapRemove? xs

/-- Places in a list of `n` entries, one after the other. -/
structure Marks (n : Nat) (indices : List Nat) : Prop where
  ascending : indices.Pairwise (· < ·)
  inBounds : ∀ i ∈ indices, i < n

/-- The entries at the other places. -/
def unmarkedAt (xs : List α) (indices : List Nat) : List α :=
  (xs.zipIdx.filter fun e => e.2 ∉ indices).map Prod.fst

theorem Marks.nil {n : Nat} : Marks n [] := ⟨List.Pairwise.nil, fun _ h => absurd h List.not_mem_nil⟩

theorem marks_concat {n i : Nat} {indices : List Nat} (h : Marks n (indices ++ [i])) :
    i < n ∧ Marks (n - 1) indices := by
  obtain ⟨hasc, hbound⟩ := h
  obtain ⟨hinit, -, hlast⟩ := List.pairwise_append.1 hasc
  have hi : i < n := hbound i (by simp)
  refine ⟨hi, hinit, ?_⟩
  intro j hj
  have hji : j < i := hlast j hj i (by simp)
  omega

theorem length_swapRemove {xs : List α} {i : Nat} : (swapRemove xs i).length = xs.length - 1 := by
  unfold swapRemove
  cases h : xs.getLast? with
  | none => simp [List.getLast?_eq_none_iff.1 h]
  | some last => simp

/-- The place removed is the last one marked, so the others stay in bounds. -/
theorem sweepAt_eq {xs : List α} {indices : List Nat} (h : Marks xs.length indices) :
    sweepAt xs indices = some (indices.foldr (fun i ys => swapRemove ys i) xs) := by
  induction indices using List.reverseRecOn generalizing xs with
  | nil => rfl
  | append_singleton indices i ih =>
    obtain ⟨hi, hrest⟩ := marks_concat h
    rw [← @length_swapRemove _ xs i] at hrest
    rw [List.foldr_append, List.foldr_cons, List.foldr_nil, ← ih hrest]
    unfold sweepAt
    rw [List.reverse_append, List.reverse_singleton, List.singleton_append, List.foldlM_cons,
      swapRemove?, if_pos hi]
    rfl

theorem mem_markedFrom {k i : Nat} {xs : List (α × Bool)} :
    i ∈ markedFrom k xs ↔ ∃ x, ((x, true), i) ∈ xs.zipIdx k := by
  induction xs generalizing k with
  | nil => simp [markedFrom]
  | cons y xs ih =>
    obtain ⟨y, b⟩ := y
    cases b with
    | true => simp [markedFrom, ih, exists_or]
    | false => simp [markedFrom, ih]

/-- The places noted on the way through a list. -/
theorem markedFrom_ascending {k : Nat} {xs : List (α × Bool)} :
    (markedFrom k xs).Pairwise (· < ·) ∧ ∀ i ∈ markedFrom k xs, k ≤ i := by
  induction xs generalizing k with
  | nil => exact ⟨List.Pairwise.nil, fun _ h => absurd h List.not_mem_nil⟩
  | cons y xs ih =>
    obtain ⟨y, b⟩ := y
    obtain ⟨hasc, hle⟩ := @ih (k + 1)
    cases b with
    | true =>
      refine ⟨List.pairwise_cons.2 ⟨hle, hasc⟩, ?_⟩
      intro i hi
      rcases List.mem_cons.1 hi with rfl | hi
      · exact Nat.le_refl _
      · exact Nat.le_of_succ_le (hle i hi)
    | false => exact ⟨hasc, fun i hi => Nat.le_of_succ_le (hle i hi)⟩

theorem marks_markedFrom {xs : List (α × Bool)} : Marks xs.length (markedFrom 0 xs) := by
  refine ⟨markedFrom_ascending.1, ?_⟩
  intro i hi
  obtain ⟨x, hx⟩ := mem_markedFrom.1 hi
  exact List.snd_lt_of_mem_zipIdx hx

/-- Every list of places is what a loop notes that marks them. -/
theorem markedFrom_of_marks {xs : List α} {indices : List Nat} (h : Marks xs.length indices) :
    markedFrom 0 (xs.zipIdx.map fun e => (e.1, decide (e.2 ∈ indices))) = indices := by
  refine List.Pairwise.eq_of_mem_iff markedFrom_ascending.1 h.ascending ?_
  intro i
  rw [mem_markedFrom]
  constructor
  · rintro ⟨x, hx⟩
    rw [List.mem_zipIdx_iff_getElem?] at hx
    simp only [List.getElem?_map, List.getElem?_zipIdx] at hx
    cases hxi : xs[i]? with
    | none => simp [hxi] at hx
    | some y =>
      simp only [hxi, Option.map_some, Option.some.injEq, Prod.mk.injEq, Nat.zero_add,
        decide_eq_true_eq] at hx
      exact hx.2
  · intro hi
    have hlt := h.inBounds i hi
    refine ⟨xs[i], ?_⟩
    rw [List.mem_zipIdx_iff_getElem?]
    simp [hi, hlt]

/-- Removing at marked places, the last first, is never out of bounds and leaves the entries at the
other places. -/
theorem sweepAt_perm {xs : List α} {indices : List Nat} (h : Marks xs.length indices) :
    ∃ left, sweepAt xs indices = some left ∧ left.Perm (unmarkedAt xs indices) := by
  refine ⟨_, sweepAt_eq h, ?_⟩
  have hsweep := @sweep_perm _ (xs.zipIdx.map fun e => (e.1, decide (e.2 ∈ indices)))
  have hfst : (xs.zipIdx.map fun e => (e.1, decide (e.2 ∈ indices))).map Prod.fst = xs := by
    rw [List.map_map]
    exact List.zipIdx_map_fst 0 xs
  have hunmarked : unmarked (xs.zipIdx.map fun e => (e.1, decide (e.2 ∈ indices))) =
      unmarkedAt xs indices := by
    unfold unmarked unmarkedAt
    rw [List.filter_map, List.map_map]
    congr 1
    refine List.filter_congr ?_
    intro e _
    simp
  unfold sweep at hsweep
  rwa [markedFrom_of_marks h, hfst, hunmarked] at hsweep

end Myco.Lib
