import Mathlib.Algebra.GroupWithZero.Nat
import Mathlib.Data.List.DropRight

/-!
# Streaks

The last elements of a list in a row that satisfy a predicate, and how many they are
(`streak`). Counters that go up or fall back to zero keep a streak (`streak_concat`), a threshold
asks for the last so many (`le_streak_iff`), and what goes off when a streak gets to a certain
length goes off once in a run that is as long, and not in another (`sum_run`).
-/

namespace Myco.Lib

variable {α : Type} {p : α → Bool} {l : List α} {x : α} {n : Nat}

/-- How many of the last elements in a row satisfy `p`. -/
def streak (p : α → Bool) (l : List α) : Nat := (l.rtakeWhile p).length

@[simp] theorem streak_nil : streak p [] = 0 := by rw [streak, List.rtakeWhile_nil]; rfl

theorem streak_concat : streak p (l ++ [x]) = if p x then streak p l + 1 else 0 := by
  unfold streak
  by_cases h : p x = true
  · rw [List.rtakeWhile_concat_pos p l x h, List.length_append, if_pos h]
    rfl
  · rw [List.rtakeWhile_concat_neg p l x h, if_neg h]
    rfl

theorem streak_concat_pos (h : p x = true) : streak p (l ++ [x]) = streak p l + 1 := by
  rw [streak_concat, if_pos h]

theorem streak_concat_neg (h : ¬ p x = true) : streak p (l ++ [x]) = 0 := by
  rw [streak_concat, if_neg h]

/-- The last `n` elements are there and satisfy `p`. -/
def LastAll (p : α → Bool) (n : Nat) (l : List α) : Prop :=
  ∃ front back, l = front ++ back ∧ back.length = n ∧ ∀ x ∈ back, p x = true

theorem le_streak_iff : n ≤ streak p l ↔ LastAll p n l := by
  constructor
  · intro h
    obtain ⟨front, hl⟩ := List.rtakeWhile_suffix p l
    have hle : n ≤ (l.rtakeWhile p).length := h
    refine ⟨front ++ (l.rtakeWhile p).take ((l.rtakeWhile p).length - n),
      (l.rtakeWhile p).drop ((l.rtakeWhile p).length - n), ?_, ?_, ?_⟩
    · rw [List.append_assoc, List.take_append_drop, hl]
    · rw [List.length_drop]
      omega
    · exact fun x hx => List.mem_rtakeWhile_imp (List.mem_of_mem_drop hx)
  · rintro ⟨front, back, rfl, rfl, hback⟩
    induction back using List.reverseRecOn with
    | nil => exact Nat.zero_le _
    | append_singleton back x ih =>
      rw [← List.append_assoc, streak_concat_pos (hback x (by simp)), List.length_append]
      exact Nat.succ_le_succ (ih fun y hy => hback y (List.mem_append_left _ hy))

/-- A run of `p` after something that is not `p` is a streak of its length. -/
theorem streak_run {front block : List α} (hfront : ∀ x ∈ front.getLast?, ¬ p x = true)
    (hblock : ∀ x ∈ block, p x = true) : streak p (front ++ block) = block.length := by
  induction block using List.reverseRecOn with
  | nil =>
    rw [List.append_nil]
    rcases List.eq_nil_or_concat front with rfl | ⟨front, x, rfl⟩
    · exact streak_nil
    · rw [List.concat_eq_append] at hfront ⊢
      exact streak_concat_neg (hfront x (by simp))
  | append_singleton block x ih =>
    rw [← List.append_assoc, streak_concat_pos (hblock x (by simp)),
      ih fun y hy => hblock y (List.mem_append_left _ hy), List.length_append]
    rfl

/-- What counts one where a streak gets to `k`, and nothing elsewhere, counts one in a run that is
as long. -/
theorem sum_run {count : α → Nat} {front block : List α} {k : Nat}
    (hfront : ∀ x ∈ front.getLast?, ¬ p x = true) (hblock : ∀ x ∈ block, p x = true)
    (hcount : ∀ pre x post, block = pre ++ x :: post →
      count x = if streak p (front ++ pre ++ [x]) = k then 1 else 0) (hk : 0 < k) :
    (block.map count).sum = if k ≤ block.length then 1 else 0 := by
  induction block using List.reverseRecOn with
  | nil =>
    exact (if_neg (Nat.not_le.2 hk)).symm
  | append_singleton block x ih =>
    have hlen : streak p (front ++ block ++ [x]) = block.length + 1 := by
      rw [List.append_assoc, streak_run hfront hblock, List.length_append]
      rfl
    rw [List.map_append, List.sum_append, List.map_singleton, List.sum_singleton,
      ih (fun y hy => hblock y (List.mem_append_left _ hy)) fun pre y post h =>
        hcount pre y (post ++ [x]) (by rw [h, List.append_assoc]; rfl),
      hcount block x [] rfl, hlen, List.length_append, List.length_singleton]
    split <;> split <;> split <;> omega

end Myco.Lib
