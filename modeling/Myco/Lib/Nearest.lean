import Mathlib.Algebra.Order.Floor.Semiring
import Mathlib.Algebra.Order.Archimedean.Basic
import Mathlib.Tactic.Linarith
import Mathlib.Tactic.NormNum

/-!
# Rounding to a grid

A grid is a rising sequence `v` of numbers. A number rounds to the point of the grid that it is
nearest to, and from the middle between two points to the one whose index is even (`RoundsOn`). At
most one point is so (`rounds_unique`), and no point is nearer (`RoundsOn.nearest`).

The whole numbers are a grid, and `halfEven` rounds to it. `halfUp` rounds to the same grid and
goes up from the middle, so the two differ exactly at the middles above an even number
(`halfEven_cases`).
-/

namespace Myco.Lib

variable {K : Type} [Field K] [LinearOrder K]

/-- The middle between a point and the next. -/
def middle (v : ℕ → K) (k : ℕ) : K := (v k + v (k + 1)) / 2

def RoundsOn (v : ℕ → K) (q : K) : ℕ → Prop
  | 0 => q ≤ middle v 0
  | k + 1 =>
    if (k + 1) % 2 = 0 then middle v k ≤ q ∧ q ≤ middle v (k + 1)
    else middle v k < q ∧ q < middle v (k + 1)

instance (v : ℕ → K) (q : K) : (k : ℕ) → Decidable (RoundsOn v q k)
  | 0 => inferInstanceAs (Decidable (q ≤ middle v 0))
  | k + 1 => inferInstanceAs (Decidable (if (k + 1) % 2 = 0 then _ else _))

theorem RoundsOn.le {v : ℕ → K} {q : K} {k : ℕ} (h : RoundsOn v q k) : q ≤ middle v k := by
  cases k with
  | zero => exact h
  | succ k =>
    simp only [RoundsOn] at h
    split at h
    · exact h.2
    · exact h.2.le

theorem RoundsOn.ge {v : ℕ → K} {q : K} {k : ℕ} (h : RoundsOn v q (k + 1)) : middle v k ≤ q := by
  simp only [RoundsOn] at h
  split at h
  · exact h.1
  · exact h.1.le

/-- What rounds from the middle goes to the even point. -/
theorem RoundsOn.even {v : ℕ → K} {k : ℕ} (h : RoundsOn v (middle v k) k) : k % 2 = 0 := by
  cases k with
  | zero => rfl
  | succ k =>
    simp only [RoundsOn] at h
    split at h
    · assumption
    · exact absurd h.2 (lt_irrefl _)

theorem RoundsOn.even' {v : ℕ → K} {k : ℕ} (h : RoundsOn v (middle v k) (k + 1)) :
    (k + 1) % 2 = 0 := by
  simp only [RoundsOn] at h
  split at h
  · assumption
  · exact absurd h.1 (lt_irrefl _)

theorem rounds_of_between {v : ℕ → K} {q : K} {k : ℕ} (h : middle v k < q)
    (h' : q < middle v (k + 1)) : RoundsOn v q (k + 1) := by
  simp only [RoundsOn]
  split
  · exact ⟨h.le, h'.le⟩
  · exact ⟨h, h'⟩

variable [IsStrictOrderedRing K]

section
variable {v : ℕ → K} (hv : StrictMono v) {q : K}
include hv

theorem lt_middle (k : ℕ) : v k < middle v k := by
  have h := hv (Nat.lt_succ_self k)
  rw [middle, lt_div_iff₀ two_pos]
  linarith

theorem middle_lt (k : ℕ) : middle v k < v (k + 1) := by
  have h := hv (Nat.lt_succ_self k)
  rw [middle, div_lt_iff₀ two_pos]
  linarith

theorem middle_strictMono : StrictMono (middle v) :=
  strictMono_nat_of_lt_succ fun k => (middle_lt hv k).trans (lt_middle hv (k + 1))

theorem not_rounds_of_lt {j k : ℕ} (hjk : j < k) (hj : RoundsOn v q j) : ¬ RoundsOn v q k := by
  intro hk
  obtain ⟨k, rfl⟩ : ∃ i, k = i + 1 := ⟨k - 1, by omega⟩
  have hle : middle v j ≤ middle v k := (middle_strictMono hv).monotone (by omega)
  have hq : q = middle v k := le_antisymm (hj.le.trans hle) hk.ge
  have hjk' : middle v j = middle v k := le_antisymm hle (hq ▸ hj.le)
  obtain rfl := (middle_strictMono hv).injective hjk'
  subst hq
  -- both have to be even, and they are neighbours
  have h1 := hj.even
  have h2 := hk.even'
  omega

theorem rounds_unique {j k : ℕ} (hj : RoundsOn v q j) (hk : RoundsOn v q k) : j = k := by
  rcases Nat.lt_trichotomy j k with h | h | h
  · exact absurd hk (not_rounds_of_lt hv h hj)
  · exact h
  · exact absurd hj (not_rounds_of_lt hv h hk)

theorem RoundsOn.nearest {k : ℕ} (h : RoundsOn v q k) (j : ℕ) : |q - v k| ≤ |q - v j| := by
  rcases Nat.lt_trichotomy j k with hjk | rfl | hjk
  · obtain ⟨k, rfl⟩ : ∃ i, k = i + 1 := ⟨k - 1, by omega⟩
    have hmono : v j ≤ v k := hv.monotone (by omega)
    have hq := h.ge
    rw [middle, div_le_iff₀ two_pos] at hq
    have hlt := hv (Nat.lt_succ_self k)
    rw [abs_of_nonneg (by linarith : 0 ≤ q - v j), abs_le]
    constructor <;> linarith
  · exact le_rfl
  · have hmono : v (k + 1) ≤ v j := hv.monotone (by omega)
    have hq := h.le
    rw [middle, le_div_iff₀ two_pos] at hq
    have hlt := hv (Nat.lt_succ_self k)
    rw [abs_of_nonpos (by linarith : q - v j ≤ 0), abs_le]
    constructor <;> linarith

end

/-! ### Where the neighbours are equally far -/

/-- Both neighbours of the point are at the distance `d`. -/
def Centred (v : ℕ → K) (d : K) (k : ℕ) : Prop := v (k + 1) - v k = d ∧ v (k + 2) - v (k + 1) = d

theorem Centred.rounds_iff {v : ℕ → K} {d q : K} {k : ℕ} (h : Centred v d k) :
    RoundsOn v q (k + 1) ↔
      if (k + 1) % 2 = 0 then |q - v (k + 1)| ≤ d / 2 else |q - v (k + 1)| < d / 2 := by
  obtain ⟨h1, h2⟩ := h
  have hlow : middle v k = v (k + 1) - d / 2 := by unfold middle; linarith
  have hhigh : middle v (k + 1) = v (k + 1) + d / 2 := by unfold middle; linarith
  simp only [RoundsOn]
  rw [hlow, hhigh, abs_le, abs_lt]
  split <;> constructor <;> rintro ⟨ha, hb⟩ <;> constructor <;> linarith

/-- What is no farther rounds as well. -/
theorem Centred.rounds_of_le {v : ℕ → K} {d q q' : K} {k : ℕ} (h : Centred v d k)
    (hle : |q' - v (k + 1)| ≤ |q - v (k + 1)|) (hq : RoundsOn v q (k + 1)) :
    RoundsOn v q' (k + 1) := by
  rw [h.rounds_iff] at hq ⊢
  split
  · rename_i heven
    rw [if_pos heven] at hq
    exact hle.trans hq
  · rename_i hodd
    rw [if_neg hodd] at hq
    exact hle.trans_lt hq

/-! ### Whole numbers -/

variable [FloorSemiring K]

/-- To the nearest whole number, from the middle to the even one. -/
def halfEven (q : K) : ℕ :=
  let n := ⌊q⌋₊
  if q < n + 1 / 2 ∨ q = n + 1 / 2 ∧ n % 2 = 0 then n else n + 1

/-- To the nearest whole number, from the middle to the larger one. -/
def halfUp (q : K) : ℕ :=
  let n := ⌊q⌋₊
  if q < n + 1 / 2 then n else n + 1

omit [IsStrictOrderedRing K] in
theorem halfEven_cases (q : K) :
    halfEven q = halfUp q ∨
      ∃ n : ℕ, q = n + 1 / 2 ∧ n % 2 = 0 ∧ halfEven q = n ∧ halfUp q = n + 1 := by
  unfold halfEven halfUp
  by_cases hlt : q < ⌊q⌋₊ + 1 / 2
  · left
    simp only [if_pos (Or.inl hlt), if_pos hlt]
  · by_cases htie : q = ⌊q⌋₊ + 1 / 2 ∧ ⌊q⌋₊ % 2 = 0
    · right
      exact ⟨⌊q⌋₊, htie.1, htie.2, if_pos (Or.inr htie), if_neg hlt⟩
    · left
      simp only [if_neg (not_or.2 ⟨hlt, htie⟩), if_neg hlt]

theorem halfUp_near {q : K} (hq : 0 ≤ q) : |(halfUp q : K) - q| ≤ 1 / 2 := by
  have hfloor := Nat.floor_le hq
  have hlt := Nat.lt_floor_add_one q
  unfold halfUp
  dsimp only
  split
  · rw [abs_le]
    constructor <;> linarith
  · rw [abs_le]
    push_cast
    constructor <;> linarith

theorem halfEven_near {q : K} (hq : 0 ≤ q) : |(halfEven q : K) - q| ≤ 1 / 2 := by
  rcases halfEven_cases q with h | ⟨n, hn, -, h, -⟩
  · rw [h]
    exact halfUp_near hq
  · rw [h, hn, abs_le]
    constructor <;> linarith

/-- `halfEven` is the rounding to the grid of the whole numbers. -/
theorem rounds_halfEven {q : K} (hq : 0 ≤ q) : RoundsOn (Nat.cast : ℕ → K) q (halfEven q) := by
  have hfloor := Nat.floor_le hq
  have hlt := Nat.lt_floor_add_one q
  have hmid : ∀ k : ℕ, middle (Nat.cast : ℕ → K) k = k + 1 / 2 := by
    intro k
    unfold middle
    push_cast
    linarith
  generalize hn : ⌊q⌋₊ = n at hfloor hlt
  unfold halfEven
  rw [hn]
  dsimp only
  split
  · rename_i h
    have hle : q ≤ n + 1 / 2 := h.elim le_of_lt fun h => h.1.le
    cases n with
    | zero =>
      show q ≤ middle _ 0
      rw [hmid]
      exact hle
    | succ n =>
      simp only [RoundsOn]
      rw [hmid, hmid]
      push_cast at h hle hfloor ⊢
      split
      · constructor <;> linarith
      · rename_i hodd
        rcases h with h | h
        · constructor <;> linarith
        · exact absurd h.2 hodd
  · rename_i h
    obtain ⟨hge, htie⟩ := not_or.1 h
    simp only [RoundsOn]
    rw [hmid, hmid]
    push_cast
    split
    · constructor <;> linarith
    · rename_i hodd
      have hne : q ≠ n + 1 / 2 := fun hq => htie ⟨hq, by omega⟩
      refine ⟨lt_of_le_of_ne (not_lt.1 hge) hne.symm, ?_⟩
      linarith

/-- What is rounded to is within half a step, so no whole number is nearer. -/
theorem near_le {q : K} {n : ℕ} (h : |(n : K) - q| ≤ 1 / 2) (m : ℕ) :
    |(n : K) - q| ≤ |(m : K) - q| := by
  rcases eq_or_ne m n with rfl | hne
  · exact le_rfl
  · have hstep : (1 : K) ≤ |(m : K) - n| := by
      have : (1 : ℤ) ≤ |(m : ℤ) - n| := Int.one_le_abs (by omega)
      exact_mod_cast this
    have htri : |(m : K) - n| ≤ |(m : K) - q| + |(n : K) - q| := by
      rw [abs_sub_comm (n : K) q]
      exact abs_sub_le _ _ _
    linarith

end Myco.Lib
