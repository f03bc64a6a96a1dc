import Mathlib.Algebra.Order.Field.Power
import Mathlib.Algebra.Order.Ring.Rat
import Mathlib.Data.Rat.Floor
import Mathlib.Tactic.FieldSimp
import Mathlib.Tactic.Positivity
import Mathlib.Tactic.Ring
import Myco.Lib.Literals
import Myco.Lib.Nearest

/-!
# Doubles

Without the sign, the bits of a double are a number, and the larger number is the larger double:
the doubles are a grid (`value_strictMono`), one step of which is `2 ^ exponent`. The grid goes on
past the largest double, and what rounds there is infinite, as the standard has it.

A point of the grid lies in the middle of its neighbours or is a power of two, where the step
below is half of the step above (`centred_or_power`).
-/

namespace Myco.Lib

namespace Binary64

def expBits (m : ℕ) : ℕ := m / 2 ^ 52

def frac (m : ℕ) : ℕ := m % 2 ^ 52

def significand (m : ℕ) : ℕ := if expBits m = 0 then frac m else 2 ^ 52 + frac m

def exponent (m : ℕ) : ℤ := if expBits m = 0 then -1074 else expBits m - 1075

def value (m : ℕ) : ℚ := significand m * 2 ^ exponent m

/-- The bits of infinity. -/
def infinity : ℕ := 2047 * 2 ^ 52

/-! ### One step of the grid -/

theorem significand_lt (m : ℕ) : significand m < 2 ^ 53 := by
  unfold significand frac
  split <;> omega

/-- In one binade the significand goes up by one. At its end the significand starts again, the
exponent goes up by one, or the doubles cease to be subnormal. -/
theorem succ_cases (m : ℕ) :
    exponent (m + 1) = exponent m ∧ significand (m + 1) = significand m + 1 ∨
      (m + 1) % 2 = 0 ∧ exponent (m + 1) = exponent m + 1 ∧ significand m + 1 = 2 ^ 53 ∧
        significand (m + 1) = 2 ^ 52 := by
  unfold exponent significand expBits frac
  by_cases hfrac : m % 2 ^ 52 + 1 = 2 ^ 52
  · have hexp : (m + 1) / 2 ^ 52 = m / 2 ^ 52 + 1 := by omega
    have hzero : (m + 1) % 2 ^ 52 = 0 := by omega
    rw [hexp, hzero]
    by_cases hm : m / 2 ^ 52 = 0
    · left
      rw [hm]
      exact ⟨by norm_num, by simp; omega⟩
    · right
      simp only [if_neg hm, if_neg (Nat.succ_ne_zero _)]
      exact ⟨by omega, by push_cast; ring, by omega, by omega⟩
  · left
    have hexp : (m + 1) / 2 ^ 52 = m / 2 ^ 52 := by omega
    have hnext : (m + 1) % 2 ^ 52 = m % 2 ^ 52 + 1 := by omega
    rw [hexp, hnext]
    refine ⟨rfl, ?_⟩
    split <;> omega

theorem two_zpow_succ (e : ℤ) : (2 : ℚ) ^ (e + 1) = 2 * 2 ^ e := by
  rw [zpow_add_one₀ two_ne_zero]
  ring

theorem value_succ (m : ℕ) : value (m + 1) = value m + 2 ^ exponent m := by
  unfold value
  rcases succ_cases m with ⟨he, hs⟩ | ⟨-, he, hs, hs'⟩
  · rw [he, hs]
    push_cast
    ring
  · have hs : (significand m : ℚ) + 1 = 2 ^ 53 := by exact_mod_cast hs
    rw [he, hs', two_zpow_succ, eq_sub_of_add_eq hs]
    push_cast
    ring

theorem value_strictMono : StrictMono value :=
  strictMono_nat_of_lt_succ fun m => by
    rw [value_succ]
    exact lt_add_of_pos_right _ (by positivity)

theorem value_zero : value 0 = 0 := by
  unfold value significand frac
  norm_num [expBits]

theorem value_pos {m : ℕ} (h : 0 < m) : 0 < value m := by
  have := value_strictMono h
  rwa [value_zero] at this

theorem middle_value (m : ℕ) : middle value m = value m + 2 ^ exponent m / 2 := by
  unfold middle
  rw [value_succ]
  ring

theorem middle_value' (m : ℕ) : middle value m = value (m + 1) - 2 ^ exponent m / 2 := by
  unfold middle
  rw [value_succ]
  ring

/-- A point of the grid has the middle of its neighbours, or is a power of two. -/
theorem centred_or_power (m : ℕ) :
    Centred value (2 ^ exponent m) m ∨
      (m + 1) % 2 = 0 ∧ exponent (m + 1) = exponent m + 1 ∧
        value (m + 1) = 2 ^ (exponent m + 53) := by
  rcases succ_cases m with ⟨he, -⟩ | ⟨heven, he, -, hs⟩
  · left
    constructor
    · rw [value_succ]
      ring
    · rw [value_succ (m + 1), he]
      ring
  · right
    refine ⟨heven, he, ?_⟩
    unfold value
    have hsum : exponent m + 53 = (52 : ℕ) + (exponent m + 1) := by push_cast; ring
    rw [hsum, zpow_add₀ two_ne_zero (52 : ℕ), zpow_natCast, he, hs]
    push_cast
    rfl

/-- The step below a double is not smaller than one part in `2 ^ 53` of it. -/
theorem value_succ_le (m : ℕ) : value (m + 1) ≤ 2 ^ 53 * 2 ^ exponent m := by
  have hs : (significand m : ℚ) + 1 ≤ 2 ^ 53 := by exact_mod_cast significand_lt m
  rw [value_succ]
  calc value m + 2 ^ exponent m = (significand m + 1) * 2 ^ exponent m := by unfold value; ring
    _ ≤ 2 ^ 53 * 2 ^ exponent m := mul_le_mul_of_nonneg_right hs (by positivity)

theorem exponent_le_succ (m : ℕ) : exponent m ≤ exponent (m + 1) := by
  rcases succ_cases m with ⟨he, -⟩ | ⟨-, he, -⟩ <;> omega

/-- What is within half of the step below a double rounds to it. -/
theorem rounds_of_near {m : ℕ} {q : ℚ} (h : |q - value (m + 1)| < 2 ^ exponent m / 2) :
    RoundsOn value q (m + 1) := by
  have hstep : (2 : ℚ) ^ exponent m ≤ 2 ^ exponent (m + 1) :=
    zpow_le_zpow_right₀ one_le_two (exponent_le_succ m)
  obtain ⟨h1, h2⟩ := abs_lt.1 h
  refine rounds_of_between ?_ ?_
  · rw [middle_value']
    linarith
  · rw [middle_value]
    linarith

/-! ### Around a power of two -/

section
variable {m : ℕ} (heven : (m + 1) % 2 = 0) (he : exponent (m + 1) = exponent m + 1) {d : ℚ}
  (hd : 0 < d)
include heven hd

omit he in
theorem rounds_below_iff : RoundsOn value (value (m + 1) - d) (m + 1) ↔ 2 * d ≤ 2 ^ exponent m := by
  have hstep : (0 : ℚ) < 2 ^ exponent (m + 1) := by positivity
  simp only [RoundsOn]
  rw [if_pos heven, middle_value', middle_value]
  constructor
  · rintro ⟨h, -⟩
    linarith
  · intro h
    constructor <;> linarith

include he in
theorem rounds_above_iff :
    RoundsOn value (value (m + 1) + d) (m + 1) ↔ d ≤ 2 ^ exponent m := by
  have hstep : (0 : ℚ) < 2 ^ exponent m := by positivity
  simp only [RoundsOn]
  rw [if_pos heven, middle_value', middle_value, he, two_zpow_succ]
  constructor
  · rintro ⟨-, h⟩
    linarith
  · intro h
    constructor <;> linarith

end

end Binary64

/-! ### What a text reads as -/

/-- The bits of a double that is a number, without the sign. -/
@[ext]
structure Magnitude where
  bits : ℕ
  le : bits ≤ Binary64.infinity
deriving DecidableEq

inductive F64 where
  | nan
  | number (negative : Bool) (abs : Magnitude)
deriving DecidableEq

open Binary64 in
/-- What rounds past the largest double is infinite. -/
def RoundsTo (q : ℚ) (m : ℕ) : Prop :=
  if m < infinity then RoundsOn value q m else middle value (infinity - 1) ≤ q

instance (q : ℚ) (m : ℕ) : Decidable (RoundsTo q m) :=
  inferInstanceAs (Decidable (if m < Binary64.infinity then _ else _))

/-- Whether the double is what the literal rounds to. -/
def Literal.Reads : Literal → F64 → Prop
  | .nan _, .nan => True
  | .infinity negative, .number negative' abs =>
    negative' = negative ∧ abs.bits = Binary64.infinity
  | .decimal negative digits exponent, .number negative' abs =>
    negative' = negative ∧ RoundsTo (digits * 10 ^ exponent) abs.bits
  | _, _ => False

instance : (l : Literal) → (f : F64) → Decidable (l.Reads f)
  | .nan _, .nan => isTrue trivial
  | .nan _, .number .. => isFalse id
  | .infinity _, .nan => isFalse id
  | .infinity _, .number _ abs => inferInstanceAs (Decidable (_ ∧ abs.bits = Binary64.infinity))
  | .decimal .., .nan => isFalse id
  | .decimal _ digits exponent, .number _ abs =>
    inferInstanceAs (Decidable (_ ∧ RoundsTo (digits * 10 ^ exponent) abs.bits))

/-- `s.parse::<f64>() == Ok(f)`, `Number(s) === f`, where the text is one of a number -/
def ParsesAs (cs : List Char) (f : F64) : Prop := ∃ l, literal? cs = some l ∧ l.Reads f

instance (cs : List Char) (f : F64) : Decidable (ParsesAs cs f) :=
  decidable_of_iff ((literal? cs).any fun l => decide (l.Reads f)) <| by
    simp [Option.any_eq_true, ParsesAs]

open Binary64 in
theorem RoundsTo.unique {q : ℚ} {m n : ℕ} (hm : m ≤ infinity) (hn : n ≤ infinity)
    (h : RoundsTo q m) (h' : RoundsTo q n) : m = n := by
  -- infinity is even, and what rounds to a double less than that is not past the last middle
  have hlast : ∀ k < infinity, RoundsOn value q k → ¬ middle value (infinity - 1) ≤ q := by
    intro k hk hr hle
    have hkm : middle value k ≤ middle value (infinity - 1) :=
      (middle_strictMono value_strictMono).monotone (by omega)
    have hq : q = middle value (infinity - 1) := le_antisymm (hr.le.trans hkm) hle
    have heq : middle value k = middle value (infinity - 1) := le_antisymm hkm (hq ▸ hr.le)
    obtain rfl := (middle_strictMono value_strictMono).injective heq
    subst hq
    exact absurd hr.even (by decide)
  unfold RoundsTo at h h'
  split at h <;> split at h'
  · exact rounds_unique value_strictMono h h'
  · exact absurd h' (hlast m (by assumption) h)
  · exact absurd h (hlast n (by assumption) h')
  · omega

theorem Literal.Reads.unique {l : Literal} {f g : F64} (hf : l.Reads f) (hg : l.Reads g) :
    f = g := by
  cases l with
  | nan =>
    cases f with
    | nan =>
      cases g with
      | nan => rfl
      | number => exact hg.elim
    | number => exact hf.elim
  | infinity negative =>
    cases f with
    | nan => exact hf.elim
    | number nf a =>
      cases g with
      | nan => exact hg.elim
      | number ng b =>
        obtain ⟨rfl, hf⟩ := hf
        obtain ⟨rfl, hg⟩ := hg
        rw [Magnitude.ext (hf.trans hg.symm)]
  | decimal negative digits exponent =>
    cases f with
    | nan => exact hf.elim
    | number nf a =>
      cases g with
      | nan => exact hg.elim
      | number ng b =>
        obtain ⟨rfl, hf⟩ := hf
        obtain ⟨rfl, hg⟩ := hg
        rw [Magnitude.ext (hf.unique a.le b.le hg)]

/-- A text reads as one double. -/
theorem ParsesAs.unique {cs : List Char} {f g : F64} (hf : ParsesAs cs f) (hg : ParsesAs cs g) :
    f = g := by
  obtain ⟨l, hl, hf⟩ := hf
  obtain ⟨l', hl', hg⟩ := hg
  obtain rfl := Option.some.inj (hl.symm.trans hl')
  exact hf.unique hg

end Myco.Lib
