import Mathlib.Tactic.LinearCombination
import Myco.Shared.FloatRepr

/-!
# How the operator writes a float

`floatRepr` of `protocol/messages/floats.ts`, which is to be the kernel's `float_repr`. The
operator's language rounds a middle up (`toExponential`) where the kernel's rounds it to the even
digit, and the code makes up for it after the loop: where the two neighbours of the middle both
read as the double, it takes the even one.

What it does not make up for is the loop. Below a power of two the double reaches half as far as
above, so there is a power of two whose digits, rounded up, read back, and rounded to even do not.
There is one such power, and on every other double the two agree (`floatRepr_agree_iff`). The text
reads as the double in any case (`texts_read_back`).
-/

namespace Myco.Operator

open Myco.Lib Binary64

/-! ### The code -/

/-- `abs.toExponential(p)` -/
def toExponential (p : ℕ) (abs : Magnitude) : List Char :=
  scientificText halfUp true p (value abs.bits)

/-- `none` where the exponent is no number. -/
def parseScientific (s : List Char) : Option (List Char × ℤ) :=
  let mantissa := s.takeWhile (· ≠ 'e')
  let digits :=
    if '.' ∈ mantissa then
      mantissa.takeWhile (· ≠ '.') ++ (mantissa.dropWhile (· ≠ '.')).drop 1
    else mantissa
  (exponent? (s.dropWhile (· ≠ 'e'))).map fun exp => (digits, exp)

/-- The loop that cuts zeros off the end, as long as more than one digit is there. -/
def stripTrailingZeros (digits : List Char) (exp : ℤ) : List Char × ℤ :=
  match digits with
  | [] => ([], exp)
  | d :: ds => (d :: ds.rdropWhile (· = '0'), exp)

/-- The loop of `decrementLastDigit`, from the last digit on. It is out of digits when it borrows
past the front. -/
def borrow : List Char → Option (List Char)
  | [] => none
  | c :: cs =>
    if c = '0' then (borrow cs).map ('9' :: ·)
    else some (Nat.digitChar (c.toNat - 48 - 1) :: cs)

def decrementLastDigit (digits : List Char) : Option (List Char) :=
  match borrow digits.reverse with
  | none => none
  | some arr =>
    let res := arr.reverse
    if res.length ≠ digits.length ∨ res.head? = some '0' then none else some res

/-- The text whose number `reparse` returns. -/
def reparseText (digits : List Char) (exp : ℤ) : List Char :=
  pointed digits ++ 'e' :: exponentText false exp

def exactDyadic (abs : Magnitude) : ℕ × ℤ :=
  let expBits := (abs.bits >>> 52) &&& 0x7ff
  let frac := abs.bits &&& 0xfffffffffffff
  if expBits = 0 then (frac, -1074) else (1 <<< 52 ||| frac, expBits - 1075)

def isExactDecimalMidpoint (abs : Magnitude) (digLow digHigh : List Char) (exp : ℤ) : Bool :=
  let ndig := digHigh.length
  let k := exp - (ndig - 1)
  let sumN := digitsValue digLow + digitsValue digHigh
  let (M, e2) := exactDyadic abs
  let A := if 0 ≤ k then M else M * 5 ^ (-k).toNat
  let B := if 0 ≤ k then sumN * 5 ^ k.toNat else sumN
  let minPow2 := min (e2 + 1) k
  A * 1 <<< (e2 + 1 - minPow2).toNat == B * 1 <<< (k - minPow2).toNat

def shortestRoundToEvenDigits (abs : Magnitude) : Option (List Char × ℤ) := do
  let p := ((List.range 18).find? fun p =>
    ParsesAs (toExponential p abs) (.number false abs)).getD 18
  let (digHigh, exp) ← parseScientific (toExponential (min p 17) abs)
  match decrementLastDigit digHigh with
  | some digLow =>
    if ParsesAs (reparseText digLow exp) (.number false abs) ∧
        isExactDecimalMidpoint abs digLow digHigh exp ∧
        (digHigh.getLast?.any fun c => (c.toNat - 48) % 2 = 1) then
      return stripTrailingZeros digLow exp
    else return stripTrailingZeros digHigh exp
  | none => return stripTrailingZeros digHigh exp

def renderPositional (digits : List Char) (exp : ℤ) : List Char :=
  if 0 ≤ exp then
    let intLen := (exp + 1).toNat
    if digits.length ≤ intLen then
      digits ++ List.replicate (intLen - digits.length) '0' ++ ".0".toList
    else digits.take intLen ++ '.' :: digits.drop intLen
  else "0.".toList ++ List.replicate (-exp - 1).toNat '0' ++ digits

def renderExponential (digits : List Char) (exp : ℤ) : List Char :=
  let rest := digits.drop 1
  digits.take 1 ++ (if rest = [] then [] else '.' :: rest) ++
    'e' :: (if exp < 0 then '-' else '+') ::
      ((if exp.natAbs < 10 then ['0'] else []) ++ Nat.toDigits 10 exp.natAbs)

def floatRepr : F64 → Option String
  | .nan => some "nan"
  | .number negative abs =>
    if abs.bits = infinity then some (if negative then "-inf" else "inf")
    else if abs.bits = 0 then some (if negative then "-0.0" else "0.0")
    else do
      let (digits, exp) ← shortestRoundToEvenDigits abs
      let body :=
        if exp < -4 ∨ 16 ≤ exp then renderExponential digits exp else renderPositional digits exp
      return String.ofList (if negative then '-' :: body else body)

/-! ### Digits -/

theorem stripTrailingZeros_eq (digits : List Char) (exp : ℤ) :
    stripTrailingZeros digits exp = (Shared.stripZeros digits, exp) := by
  cases digits <;> rfl

theorem parseScientific_pointed {ds : List Char} (hds : IsDigits ds) {es : List Char} {e : ℤ}
    (he : exponent? ('e' :: es) = some e) :
    parseScientific (pointed ds ++ 'e' :: es) = some (ds, e) := by
  obtain ⟨hne, hall⟩ := hds
  have hpos : ∀ d ∈ pointed ds, decide (d ≠ 'e') = true := fun d hd =>
    decide_eq_true (ne_letter_of_mem_pointed hall hd)
  have htake : (pointed ds ++ 'e' :: es).takeWhile (· ≠ 'e') = pointed ds := by
    rw [List.takeWhile_append_of_pos hpos]
    simp
  have hdrop : (pointed ds ++ 'e' :: es).dropWhile (· ≠ 'e') = 'e' :: es := by
    rw [List.dropWhile_append_of_pos hpos]
    simp
  unfold parseScientific
  rw [htake, hdrop, he]
  cases ds with
  | nil => exact absurd rfl hne
  | cons c cs =>
    have hc : c ≠ '.' := ne_of_isDigit (hall c List.mem_cons_self) rfl
    cases cs with
    | nil => simp [pointed, hc.symm]
    | cons c' cs => simp [pointed, hc]

theorem borrow_value {cs es : List Char} (hcs : ∀ c ∈ cs, c.isDigit = true)
    (h : borrow cs = some es) :
    digitsValue es.reverse + 1 = digitsValue cs.reverse ∧ ∀ c ∈ es, c.isDigit = true := by
  induction cs generalizing es with
  | nil => cases h
  | cons c cs ih =>
    obtain ⟨hc, hcs⟩ := List.forall_mem_cons.1 hcs
    obtain ⟨h48, h57⟩ := isDigit_toNat hc
    unfold borrow at h
    split at h
    · rename_i hzero
      obtain ⟨es, hes, rfl⟩ := Option.map_eq_some_iff.1 h
      obtain ⟨hval, hall⟩ := ih hcs hes
      refine ⟨?_, List.forall_mem_cons.2 ⟨rfl, hall⟩⟩
      rw [List.reverse_cons, List.reverse_cons, digitsValue_append, digitsValue_append, ← hval,
        hzero]
      simp [digitsValue]
      ring
    · rename_i hzero
      obtain rfl := Option.some.inj h
      have hne : c.toNat ≠ 48 := fun h48 => hzero (Char.toNat_inj.1 h48)
      have hlt : c.toNat - 48 - 1 < 10 := by omega
      refine ⟨?_, List.forall_mem_cons.2 ⟨by simp [hlt], hcs⟩⟩
      rw [List.reverse_cons, List.reverse_cons, digitsValue_append, digitsValue_append]
      simp [digitsValue, Nat.toNat_digitChar_of_lt_ten hlt]
      omega

theorem decrementLastDigit_some {ds lo : List Char} (hds : IsDigits ds)
    (h : decrementLastDigit ds = some lo) :
    IsDigits lo ∧ digitsValue lo + 1 = digitsValue ds ∧ lo.length = ds.length ∧
      lo.head? ≠ some '0' := by
  unfold decrementLastDigit at h
  split at h
  · cases h
  · rename_i arr harr
    dsimp only at h
    split at h
    · cases h
    · rename_i hres
      obtain ⟨hlen, hhead⟩ := not_or.1 hres
      obtain rfl := Option.some.inj h
      obtain ⟨hval, hall⟩ := borrow_value (fun c hc => hds.2 c (List.mem_reverse.1 hc)) harr
      rw [List.reverse_reverse] at hval
      refine ⟨⟨fun hnil => ?_, fun c hc => hall c (List.mem_reverse.1 hc)⟩, hval,
        not_not.1 hlen, hhead⟩
      rw [hnil] at hlen
      exact hlen fun h => hds.1 (List.length_eq_zero_iff.1 h.symm)

theorem head?_toDigits {n : ℕ} (hn : 0 < n) : (Nat.toDigits 10 n).head? ≠ some '0' := by
  induction n using Nat.strongRecOn with
  | ind n ih =>
    rw [Nat.toDigits_eq_if (by decide)]
    split
    · rename_i hlt
      intro h
      have := congrArg Char.toNat (Option.some.inj h)
      rw [Nat.toNat_digitChar_of_lt_ten hlt] at this
      simp at this
      omega
    · rename_i hge
      have hhead := ih (n / 10) (by omega) (by omega)
      intro h
      rw [List.head?_append_of_ne_nil _ Nat.toDigits_ne_nil] at h
      exact hhead h

/-- Above an even number no digit but the last one changes. -/
theorem decrementLastDigit_succ {n : ℕ} (hn : 0 < n) (heven : n % 2 = 0) :
    decrementLastDigit (Nat.toDigits 10 (n + 1)) = some (Nat.toDigits 10 n) := by
  obtain ⟨front, hn', hs⟩ : ∃ front, Nat.toDigits 10 n = front ++ [Nat.digitChar (n % 10)] ∧
      Nat.toDigits 10 (n + 1) = front ++ [Nat.digitChar ((n + 1) % 10)] := by
    by_cases hlt : n < 10
    · refine ⟨[], ?_, ?_⟩
      · rw [Nat.toDigits_of_lt_base hlt, Nat.mod_eq_of_lt hlt]
        rfl
      · rw [Nat.toDigits_of_lt_base (by omega), Nat.mod_eq_of_lt (by omega)]
        rfl
    · refine ⟨Nat.toDigits 10 (n / 10), Nat.toDigits_of_base_le (by decide) (by omega), ?_⟩
      rw [Nat.toDigits_of_base_le (by decide) (by omega), show (n + 1) / 10 = n / 10 by omega]
  have hd : (n + 1) % 10 < 10 := Nat.mod_lt _ (by decide)
  have hne : Nat.digitChar ((n + 1) % 10) ≠ '0' := by
    intro h
    have := congrArg Char.toNat h
    rw [Nat.toNat_digitChar_of_lt_ten hd] at this
    simp at this
    omega
  have hborrow : borrow (Nat.toDigits 10 (n + 1)).reverse = some (Nat.toDigits 10 n).reverse := by
    rw [hs, hn', List.reverse_append, List.reverse_append]
    simp only [List.reverse_singleton, List.singleton_append, borrow]
    rw [if_neg hne, Nat.toNat_digitChar_of_lt_ten hd]
    congr 3
    omega
  unfold decrementLastDigit
  rw [hborrow]
  dsimp only
  rw [List.reverse_reverse, if_neg]
  rintro (hlen | hhead)
  · rw [hs, hn'] at hlen
    simp at hlen
  · exact head?_toDigits hn hhead

/-! ### The test for a middle -/

theorem exactDyadic_eq {abs : Magnitude} (hfin : abs.bits < infinity) :
    exactDyadic abs = (significand abs.bits, exponent abs.bits) := by
  have hlt : abs.bits / 2 ^ 52 < 2 ^ 11 := by unfold infinity at hfin; omega
  have hexp : (abs.bits >>> 52) &&& 0x7ff = expBits abs.bits := by
    rw [Nat.shiftRight_eq_div_pow]
    exact (Nat.and_two_pow_sub_one_eq_mod _ 11).trans (Nat.mod_eq_of_lt hlt)
  have hfrac : abs.bits &&& 0xfffffffffffff = frac abs.bits :=
    Nat.and_two_pow_sub_one_eq_mod _ 52
  have hor : 1 <<< 52 ||| frac abs.bits = 2 ^ 52 + frac abs.bits := by
    have h := Nat.two_pow_add_eq_or_of_lt (Nat.mod_lt abs.bits (Nat.two_pow_pos 52)) 1
    rw [Nat.mul_one] at h
    exact h.symm
  unfold exactDyadic significand exponent
  rw [hexp, hfrac]
  dsimp only
  rw [hor]
  split <;> rfl

theorem cast_pow_toNat (b : ℕ) {s : ℤ} (h : 0 ≤ s) : ((b ^ s.toNat : ℕ) : ℚ) = (b : ℚ) ^ s := by
  rw [Nat.cast_pow, ← zpow_natCast, Int.toNat_of_nonneg h]

theorem ten_zpow (k : ℤ) : (10 : ℚ) ^ k = 2 ^ k * 5 ^ k := by
  rw [← mul_zpow]
  norm_num

theorem isExactDecimalMidpoint_iff {abs : Magnitude} (hfin : abs.bits < infinity)
    (digLow digHigh : List Char) (exp : ℤ) :
    isExactDecimalMidpoint abs digLow digHigh exp = true ↔
      2 * value abs.bits =
        (digitsValue digLow + digitsValue digHigh) * 10 ^ (exp - (digHigh.length - 1)) := by
  unfold isExactDecimalMidpoint value
  rw [exactDyadic_eq hfin]
  dsimp only
  generalize exp - ((digHigh.length : ℤ) - 1) = k
  generalize exponent abs.bits = e
  generalize significand abs.bits = M
  have hN : (digitsValue digLow + digitsValue digHigh : ℚ) =
      (digitsValue digLow + digitsValue digHigh : ℕ) := by push_cast; rfl
  rw [hN]
  generalize digitsValue digLow + digitsValue digHigh = N
  -- both sides were divided by this
  have hc : (0 : ℚ) < 2 ^ min (e + 1) k * 5 ^ min k 0 := by positivity
  have hA : (((if 0 ≤ k then M else M * 5 ^ (-k).toNat) * 1 <<< (e + 1 - min (e + 1) k).toNat : ℕ)
      : ℚ) * (2 ^ min (e + 1) k * 5 ^ min k 0) = 2 * (M * 2 ^ e) := by
    have htwo : (2 : ℚ) ^ (e + 1 - min (e + 1) k) * 2 ^ min (e + 1) k = 2 * 2 ^ e := by
      rw [← zpow_add₀ two_ne_zero, sub_add_cancel, two_zpow_succ]
    rw [Nat.one_shiftLeft, Nat.cast_mul, cast_pow_toNat 2 (sub_nonneg.2 (min_le_left _ _)),
      Nat.cast_ofNat]
    by_cases hk : 0 ≤ k
    · rw [if_pos hk, min_eq_right hk, zpow_zero]
      linear_combination (M : ℚ) * htwo
    · have hk : k ≤ 0 := (not_le.1 hk).le
      have hfive : (5 : ℚ) ^ (-k) * 5 ^ k = 1 := by
        rw [← zpow_add₀ (by norm_num), neg_add_cancel, zpow_zero]
      rw [if_neg (by omega), min_eq_left hk, Nat.cast_mul,
        cast_pow_toNat 5 (neg_nonneg.2 hk), Nat.cast_ofNat]
      linear_combination (M : ℚ) * htwo * (5 ^ (-k) * 5 ^ k) + M * (2 * 2 ^ e) * hfive
  have hB : (((if 0 ≤ k then N * 5 ^ k.toNat else N) * 1 <<< (k - min (e + 1) k).toNat : ℕ)
      : ℚ) * (2 ^ min (e + 1) k * 5 ^ min k 0) = N * 10 ^ k := by
    have htwo : (2 : ℚ) ^ (k - min (e + 1) k) * 2 ^ min (e + 1) k = 2 ^ k := by
      rw [← zpow_add₀ two_ne_zero, sub_add_cancel]
    rw [Nat.one_shiftLeft, Nat.cast_mul, cast_pow_toNat 2 (sub_nonneg.2 (min_le_right _ _)),
      Nat.cast_ofNat, ten_zpow]
    by_cases hk : 0 ≤ k
    · rw [if_pos hk, min_eq_right hk, zpow_zero, Nat.cast_mul, cast_pow_toNat 5 hk,
        Nat.cast_ofNat]
      linear_combination (N : ℚ) * 5 ^ k * htwo
    · rw [if_neg hk, min_eq_left (not_le.1 hk).le]
      linear_combination (N : ℚ) * 5 ^ k * htwo
  rw [beq_iff_eq, ← Nat.cast_inj (R := ℚ), ← mul_left_inj' hc.ne', hA, hB]

/-! ### Ties at a power of two -/

/-- A power of two is in the middle between two multiples of a power of ten in one way only. -/
theorem power_tie {a k : ℤ} {n : ℕ} (hn : 0 < n) (h : (2 : ℚ) ^ (a + 1) = (2 * n + 1) * 10 ^ k) :
    ∃ j : ℕ, k = -j ∧ 2 * n + 1 = 5 ^ j ∧ a = -(j + 1) := by
  have hs : (2 : ℚ) ^ (a + 1 - k) = (2 * n + 1) * 5 ^ k := by
    rw [zpow_sub₀ two_ne_zero, h, ten_zpow]
    field_simp
  clear h
  have hfive : ∀ i : ℕ, 5 ^ i % 2 = 1 := fun i => by
    rw [Nat.pow_mod]
    exact congrArg (· % 2) (Nat.one_pow i)
  have heven : ∀ i : ℕ, 0 < i → 2 ^ i % 2 = 0 := fun i hi => by
    rw [Nat.pow_mod, Nat.mod_self, Nat.zero_pow hi]
  obtain ⟨j, rfl | rfl⟩ := k.eq_nat_or_neg
  · exfalso
    rw [zpow_natCast] at hs
    obtain ⟨t, ht | ht⟩ := (a + 1 - j : ℤ).eq_nat_or_neg
    · rw [ht, zpow_natCast] at hs
      have hs : 2 ^ t = (2 * n + 1) * 5 ^ j := by exact_mod_cast hs
      have h1 : ((2 * n + 1) * 5 ^ j) % 2 = 1 := by rw [Nat.mul_mod, hfive]; omega
      rcases Nat.eq_zero_or_pos t with rfl | ht
      · have := Nat.eq_one_of_mul_eq_one_right hs.symm
        omega
      · rw [← hs, heven t ht] at h1
        omega
    · rw [ht, zpow_neg, zpow_natCast, inv_eq_one_div, div_eq_iff (by positivity)] at hs
      have hs : 1 = (2 * n + 1) * 5 ^ j * 2 ^ t := by exact_mod_cast hs
      have := Nat.eq_one_of_mul_eq_one_right (Nat.eq_one_of_mul_eq_one_right hs.symm)
      omega
  · rw [zpow_neg, zpow_natCast, ← div_eq_mul_inv, eq_div_iff (by positivity)] at hs
    obtain ⟨t, ht | ht⟩ := (a + 1 - -(j : ℤ)).eq_nat_or_neg
    · rw [ht, zpow_natCast] at hs
      have hs : 2 ^ t * 5 ^ j = 2 * n + 1 := by exact_mod_cast hs
      rcases Nat.eq_zero_or_pos t with rfl | hpos
      · rw [pow_zero, one_mul] at hs
        exact ⟨j, rfl, hs.symm, by omega⟩
      · have h2 := heven t hpos
        have h1 : (2 ^ t * 5 ^ j) % 2 = 0 := by rw [Nat.mul_mod, h2]; simp
        omega
    · rw [ht, zpow_neg, zpow_natCast, ← div_eq_inv_mul, div_eq_iff (by positivity)] at hs
      have hs : 5 ^ j = (2 * n + 1) * 2 ^ t := by exact_mod_cast hs
      rcases Nat.eq_zero_or_pos t with rfl | hpos
      · exact ⟨j, rfl, by omega, by omega⟩
      · have h1 : ((2 * n + 1) * 2 ^ t) % 2 = 0 := by rw [Nat.mul_mod, heven t hpos]; simp
        have h2 := hfive j
        omega

/-- `5 ^ 23` is the one power of five between `2 ^ 53` and `2 ^ 54`. -/
theorem pow_five_iff {j : ℕ} (hj : j ≠ 23) : 2 ^ 54 ≤ 5 ^ j ↔ 2 ^ 53 ≤ 5 ^ j := by
  rcases Nat.lt_or_gt_of_ne hj with hlt | hgt
  · have h : 5 ^ j ≤ 5 ^ 22 := Nat.pow_le_pow_right (by decide) (by omega)
    have h22 : 5 ^ 22 < 2 ^ 53 := by decide
    omega
  · have h : 5 ^ 24 ≤ 5 ^ j := Nat.pow_le_pow_right (by decide) (by omega)
    have h24 : 2 ^ 54 ≤ 5 ^ 24 := by decide
    omega

theorem ten_zpow_le_iff (j i : ℕ) : (10 : ℚ) ^ (-(j : ℤ)) ≤ 2 ^ (-(j + i : ℤ)) ↔ 2 ^ i ≤ 5 ^ j := by
  have hten : (10 : ℚ) ^ j = 2 ^ j * 5 ^ j := by rw [← mul_pow]; norm_num
  have hsum : (j + i : ℤ) = ((j + i : ℕ) : ℤ) := by push_cast; rfl
  rw [hsum, zpow_neg, zpow_neg, zpow_natCast, zpow_natCast, inv_le_inv₀ (by positivity)
    (by positivity), pow_add, hten, mul_le_mul_iff_right₀ (by positivity)]
  exact_mod_cast Iff.rfl

theorem tie_pos {x : ℚ} (hx : 0 < x) {p n : ℕ} (h : x / lastPlace p x = n + 1 / 2) : 0 < n := by
  have h1 := (scaled_bounds hx p).1
  rw [h] at h1
  have h2 : (1 : ℚ) ≤ 10 ^ p := one_le_pow₀ (by norm_num)
  by_contra h0
  have h3 : (n : ℚ) = 0 := by exact_mod_cast Nat.eq_zero_of_not_pos h0
  linarith

theorem toNearest_halfUp : ToNearest halfUp := fun _ => halfUp_near

/-- Whether the digits read back does not hang on how a tie is broken, but for one double. -/
theorem rounds_halfEven_iff {m : ℕ} (hx : value (m + 1) ≠ 2 ^ (-24 : ℤ)) (p : ℕ) :
    RoundsOn value (roundedTo halfEven p (value (m + 1))) (m + 1) ↔
      RoundsOn value (roundedTo halfUp p (value (m + 1))) (m + 1) := by
  have hpos := value_pos (Nat.succ_pos m)
  generalize hxv : value (m + 1) = x at *
  have hu := lastPlace_pos (x := x) p
  rcases halfEven_cases (x / lastPlace p x) with heq | ⟨n, htie, heven, hlow, hhigh⟩
  · unfold roundedTo
    rw [heq]
  -- a tie: the two are half of the last place away, on either side
  have hx2 : x = (n + 1 / 2) * lastPlace p x := (div_eq_iff hu.ne').1 htie
  have hdown : roundedTo halfEven p x = x - lastPlace p x / 2 := by
    unfold roundedTo
    rw [hlow]
    linear_combination -hx2
  have hup : roundedTo halfUp p x = x + lastPlace p x / 2 := by
    unfold roundedTo
    rw [hhigh]
    push_cast
    linear_combination -hx2
  rw [hdown, hup]
  rcases centred_or_power m with hc | ⟨hmeven, he, hpow⟩
  · have hdist : ∀ s : ℚ, s = lastPlace p x / 2 ∨ s = -(lastPlace p x / 2) →
        |x + s - value (m + 1)| = lastPlace p x / 2 := by
      intro s hs
      rw [hxv, add_sub_cancel_left]
      rcases hs with rfl | rfl
      · exact abs_of_pos (by positivity)
      · rw [abs_neg]
        exact abs_of_pos (by positivity)
    have h1 := hdist _ (Or.inl rfl)
    have h2 := hdist _ (Or.inr rfl)
    rw [← sub_eq_add_neg] at h2
    exact ⟨hc.rounds_of_le (by rw [h1, h2]), hc.rounds_of_le (by rw [h1, h2])⟩
  · have hn := tie_pos hpos htie
    rw [hxv] at hpow
    have htwo : (2 : ℚ) ^ (exponent m + 53 + 1) = (2 * n + 1) * 10 ^ (Int.log 10 x - p) := by
      rw [two_zpow_succ, ← hpow]
      unfold lastPlace at hx2
      linear_combination 2 * hx2
    obtain ⟨j, hk, -, ha⟩ := power_tie hn htwo
    have hplace : lastPlace p x = 10 ^ (-(j : ℤ)) := by unfold lastPlace; rw [hk]
    have hj : j ≠ 23 := by
      rintro rfl
      exact hx (by rw [hpow, ha]; norm_num)
    have hbelow : 2 * (lastPlace p x / 2) ≤ 2 ^ exponent m ↔ 2 ^ 54 ≤ 5 ^ j := by
      rw [hplace, mul_div_cancel₀ _ two_ne_zero,
        show exponent m = -(j + (54 : ℕ) : ℤ) by push_cast; omega]
      exact ten_zpow_le_iff j 54
    have habove : lastPlace p x / 2 ≤ 2 ^ exponent m ↔ 2 ^ 53 ≤ 5 ^ j := by
      rw [hplace, div_le_iff₀ two_pos, mul_comm, ← two_zpow_succ,
        show exponent m + 1 = -(j + (53 : ℕ) : ℤ) by push_cast; omega]
      exact ten_zpow_le_iff j 53
    have hreads := rounds_below_iff hmeven (half_pos hu)
    have hreads' := rounds_above_iff hmeven he (half_pos hu)
    rw [hxv] at hreads hreads'
    rw [hreads, hreads', hbelow, habove]
    exact pow_five_iff hj

/-! ### The tie after the loop -/

theorem getLast?_toDigits (n : ℕ) :
    (Nat.toDigits 10 n).getLast? = some (Nat.digitChar (n % 10)) := by
  rw [Nat.toDigits_eq_if (by decide)]
  split
  · rename_i hlt
    rw [Nat.mod_eq_of_lt hlt]
    rfl
  · rw [List.getLast?_concat]

theorem last_odd_iff (n : ℕ) :
    (Nat.toDigits 10 n).getLast?.any (fun c => (c.toNat - 48) % 2 = 1) = true ↔ n % 2 = 1 := by
  rw [getLast?_toDigits]
  simp only [Option.any_some, decide_eq_true_eq]
  rw [Nat.toNat_digitChar_sub_48_of_lt_ten (Nat.mod_lt _ (by decide))]
  omega

section
variable {abs : Magnitude} (hpos : 0 < abs.bits) (hfin : abs.bits < infinity) (p : ℕ)
include hpos hfin

/-- Where no tie was broken upwards, the code after the loop leaves the digits as they are. -/
theorem not_corrected {lo : List Char}
    (heq : halfEven (value abs.bits / lastPlace p (value abs.bits)) =
      halfUp (value abs.bits / lastPlace p (value abs.bits)))
    (hlo : decrementLastDigit (Nat.toDigits 10 (scientific halfUp p (value abs.bits)).1) = some lo)
    (hmid : isExactDecimalMidpoint abs lo
      (Nat.toDigits 10 (scientific halfUp p (value abs.bits)).1)
      (scientific halfUp p (value abs.bits)).2 = true) :
    (scientific halfUp p (value abs.bits)).1 % 2 ≠ 1 := by
  intro hodd
  have hx := value_pos hpos
  obtain ⟨hlow, hhigh⟩ := scientific_bounds toNearest_halfUp hx p
  have hdec := (decrementLastDigit_some (isDigits_toDigits _) hlo).2.1
  rw [isExactDecimalMidpoint_iff hfin, length_toDigits hlow hhigh, digitsValue_toDigits] at hmid
  rw [digitsValue_toDigits] at hdec
  rcases scientific_cases (x := value abs.bits) p halfUp with ⟨-, hs⟩ | hs
  · -- a power of ten is odd where it is one, and one less has no digit
    rw [hs] at hlo hodd
    cases p with
    | zero =>
      have hnone : decrementLastDigit (Nat.toDigits 10 1) = none := by decide
      exact absurd (hnone.symm.trans hlo) (by simp)
    | succ p =>
      rw [pow_succ] at hodd
      omega
  · rw [hs] at hmid hdec hodd
    dsimp only at hmid hdec hodd
    have hu := lastPlace_pos (x := value abs.bits) p
    have hplace : (10 : ℚ) ^ (Int.log 10 (value abs.bits) - ((p + 1 : ℕ) - 1 : ℤ)) =
        lastPlace p (value abs.bits) := by
      unfold lastPlace
      push_cast
      rw [add_sub_cancel_right]
    have hq : value abs.bits / lastPlace p (value abs.bits) =
        middle (Nat.cast : ℕ → ℚ) (digitsValue lo) := by
      unfold middle
      rw [div_eq_iff hu.ne', hdec]
      rw [hplace] at hmid
      linear_combination hmid / 2
    have hr := rounds_halfEven (q := value abs.bits / lastPlace p (value abs.bits)) (by positivity)
    rw [heq, ← hdec, hq] at hr
    have := hr.even'
    omega

omit hfin in
/-- No tie is next to a power of ten. -/
theorem scientific_tie {n : ℕ} (heven : n % 2 = 0)
    (htie : value abs.bits / lastPlace p (value abs.bits) = n + 1 / 2)
    (hlow : halfEven (value abs.bits / lastPlace p (value abs.bits)) = n)
    (hhigh : halfUp (value abs.bits / lastPlace p (value abs.bits)) = n + 1) :
    scientific halfEven p (value abs.bits) = (n, Int.log 10 (value abs.bits)) ∧
      scientific halfUp p (value abs.bits) = (n + 1, Int.log 10 (value abs.bits)) := by
  constructor
  · rcases scientific_cases (x := value abs.bits) p halfEven with ⟨hcarry, -⟩ | hs
    · have hlt := (scaled_bounds (value_pos hpos) p).2
      rw [htie, ← hlow, hcarry] at hlt
      push_cast at hlt
      linarith
    · rw [hs, hlow]
  · rcases scientific_cases (x := value abs.bits) p halfUp with ⟨hcarry, -⟩ | hs
    · rw [hhigh, pow_succ] at hcarry
      omega
    · rw [hs, hhigh]

/-- On the same digits, one side after another. -/
theorem shortestRoundToEvenDigits_eq (hx : value abs.bits ≠ 2 ^ (-24 : ℤ)) :
    shortestRoundToEvenDigits abs = Shared.shortestRoundToEvenDigits abs := by
  have hpos' := value_pos hpos
  obtain ⟨p, hp18, hp, hr, -⟩ := exists_precision toNearest_halfUp hpos hfin true
  -- whether the digits read back is the same on both sides, so the loops stop at the same place
  have hiff : ∀ j, RoundsOn value (roundedTo halfEven j (value abs.bits)) abs.bits ↔
      RoundsOn value (roundedTo halfUp j (value abs.bits)) abs.bits := by
    obtain ⟨m, hm⟩ : ∃ m, abs.bits = m + 1 := ⟨abs.bits - 1, by omega⟩
    rw [hm] at hx ⊢
    exact rounds_halfEven_iff hx
  have hloop : (List.range 18).find? (fun j => decide (ParsesAs
      (scientificText halfEven false j (value abs.bits)) (.number false abs))) = some p := by
    rw [← hp]
    congr 1
    funext j
    refine decide_eq_decide.2 ?_
    rw [parsesAs_scientificText Shared.toNearest_halfEven hpos hfin,
      parsesAs_scientificText toNearest_halfUp hpos hfin, hiff]
  have hkernel : Shared.shortestRoundToEvenDigits abs =
      some (Shared.stripZeros (Nat.toDigits 10 (scientific halfEven p (value abs.bits)).1),
        (scientific halfEven p (value abs.bits)).2) := by
    unfold Shared.shortestRoundToEvenDigits Shared.lowerExp
    rw [hloop]
    exact Shared.parseScientific_pointed (isDigits_toDigits _) (exponent?_exponentText _ _)
  have hparse : parseScientific (toExponential p abs) =
      some (Nat.toDigits 10 (scientific halfUp p (value abs.bits)).1,
        (scientific halfUp p (value abs.bits)).2) :=
    parseScientific_pointed (isDigits_toDigits _) (exponent?_exponentText _ _)
  have hfound : (List.range 18).find? (fun j =>
      decide (ParsesAs (toExponential j abs) (.number false abs))) = some p := hp
  have hmin : min p 17 = p := by omega
  rw [hkernel]
  unfold shortestRoundToEvenDigits
  rw [hfound, Option.getD_some]
  dsimp only
  rw [hmin, hparse, Option.bind_eq_bind, Option.bind_some]
  dsimp only
  rcases halfEven_cases (value abs.bits / lastPlace p (value abs.bits)) with
    heq | ⟨n, htie, heven, hlow, hhigh⟩
  · have hsame : scientific halfEven p (value abs.bits) = scientific halfUp p (value abs.bits) := by
      unfold lastPlace at heq
      unfold scientific
      dsimp only
      rw [heq]
    rw [hsame]
    split
    · rename_i lo hlo
      rw [if_neg, stripTrailingZeros_eq]
      · rfl
      · rintro ⟨-, hmid, hodd⟩
        exact not_corrected hpos hfin p heq hlo hmid ((last_odd_iff _).1 hodd)
    · rw [stripTrailingZeros_eq]
      rfl
  · obtain ⟨hs, hs'⟩ := scientific_tie hpos p heven htie hlow hhigh
    have hn := tie_pos hpos' htie
    have hdec := decimalValue_scientific Shared.toNearest_halfEven hpos' p
    have hreads : ParsesAs (reparseText (Nat.toDigits 10 n) (Int.log 10 (value abs.bits)))
        (.number false abs) := by
      have hr' := (parsesAs_scientificText Shared.toNearest_halfEven hpos hfin false p).2
        ((hiff p).2 hr)
      unfold scientificText at hr'
      rw [hs] at hr'
      exact hr'
    have hmid : isExactDecimalMidpoint abs (Nat.toDigits 10 n) (Nat.toDigits 10 (n + 1))
        (Int.log 10 (value abs.bits)) = true := by
      obtain ⟨hb, hb'⟩ := scientific_bounds toNearest_halfUp hpos' p
      rw [hs'] at hb hb'
      rw [isExactDecimalMidpoint_iff hfin, length_toDigits hb hb', digitsValue_toDigits,
        digitsValue_toDigits]
      have hu := lastPlace_pos (x := value abs.bits) p
      rw [div_eq_iff hu.ne'] at htie
      unfold lastPlace at htie
      push_cast
      rw [add_sub_cancel_right]
      linear_combination 2 * htie
    rw [hs, hs']
    dsimp only
    rw [decrementLastDigit_succ hn heven]
    dsimp only
    rw [if_pos ⟨hreads, hmid, (last_odd_iff _).2 (by omega)⟩, stripTrailingZeros_eq]
    rfl

/-- The digits round to the double: those of the loop did, and the code after it asks. -/
theorem shortestRoundToEvenDigits_spec :
    ∃ digits exp, shortestRoundToEvenDigits abs = some (digits, exp) ∧ IsDigits digits ∧
      RoundsOn value (decimalValue digits exp) abs.bits := by
  have hpos' := value_pos hpos
  obtain ⟨p, hp18, hp, hr, -⟩ := exists_precision toNearest_halfUp hpos hfin true
  have hfound : (List.range 18).find? (fun j =>
      decide (ParsesAs (toExponential j abs) (.number false abs))) = some p := hp
  have hmin : min p 17 = p := by omega
  have hparse : parseScientific (toExponential p abs) =
      some (Nat.toDigits 10 (scientific halfUp p (value abs.bits)).1,
        (scientific halfUp p (value abs.bits)).2) :=
    parseScientific_pointed (isDigits_toDigits _) (exponent?_exponentText _ _)
  have hds := isDigits_toDigits (scientific halfUp p (value abs.bits)).1
  rw [← decimalValue_scientific toNearest_halfUp hpos', ← Shared.decimalValue_stripZeros] at hr
  have hhigh := Shared.isDigits_stripZeros hds
  unfold shortestRoundToEvenDigits
  rw [hfound, Option.getD_some]
  dsimp only
  rw [hmin, hparse, Option.bind_eq_bind, Option.bind_some]
  dsimp only
  split
  · rename_i lo hlo
    split
    · rename_i hcond
      have hlods := (decrementLastDigit_some hds hlo).1
      have hsaid := says_pointed hlods (exponent?_exponentText false
        (scientific halfUp p (value abs.bits)).2)
      have hlor := (hsaid.parsesAs_iff false abs).1 hcond.1
      unfold RoundsTo at hlor
      rw [if_pos hfin, ← Shared.decimalValue_stripZeros] at hlor
      exact ⟨_, _, congrArg some (stripTrailingZeros_eq _ _), Shared.isDigits_stripZeros hlods,
        hlor⟩
    · exact ⟨_, _, congrArg some (stripTrailingZeros_eq _ _), hhigh, hr⟩
  · exact ⟨_, _, congrArg some (stripTrailingZeros_eq _ _), hhigh, hr⟩

end

/-! ### The text -/

theorem floatRepr_eq_with (f : F64) :
    floatRepr f = Shared.floatReprWith shortestRoundToEvenDigits f := by
  cases f <;> rfl

theorem floatRepr_parses (f : F64) : ∃ s, floatRepr f = some s ∧ ParsesAs s.toList f := by
  rw [floatRepr_eq_with]
  exact Shared.floatReprWith_parses (fun _ => shortestRoundToEvenDigits_spec) f

/-- Whichever side writes it, Rust and Python read the text as the double, and neither side writes
it for another double. -/
theorem texts_read_back (t : CharTable) (f : F64) {write : F64 → Option String}
    (hw : write ∈ [Shared.floatRepr, floatRepr]) :
    ∃ s l, write f = some s ∧ f64FromStr s = some l ∧ pyFloat t s = some l ∧ l.Reads f ∧
      ∀ g, ∀ write' ∈ [Shared.floatRepr, floatRepr], write' g = some s → g = f := by
  have hparses : ∀ w ∈ [Shared.floatRepr, floatRepr], ∀ h, ∃ s, w h = some s ∧
      ParsesAs s.toList h := by
    intro w hw h
    simp only [List.mem_cons, List.not_mem_nil, or_false] at hw
    rcases hw with rfl | rfl
    · exact Shared.floatRepr_parses h
    · exact floatRepr_parses h
  obtain ⟨s, hs, hf⟩ := hparses write hw f
  obtain ⟨l, hl, hr⟩ := id hf
  refine ⟨s, l, hs, hl, pyFloat_of_f64FromStr t hl, hr, fun g write' hw' hg => ?_⟩
  obtain ⟨s', hs', hgs⟩ := hparses write' hw' g
  obtain rfl := Option.some.inj (hs'.symm.trans hg)
  exact hgs.unique hf

/-- The bits of `2 ^ -24`. -/
def straddled : Magnitude := ⟨999 * 2 ^ 52, by decide⟩

theorem texts_read_back_straddled :
    ∃ s l, floatRepr (.number true straddled) = some s ∧ f64FromStr s = some l ∧
      pyFloat ⟨fun _ => false, fun _ => none⟩ s = some l ∧ l.Reads (.number true straddled) ∧
      ∀ g, ∀ write' ∈ [Shared.floatRepr, floatRepr], write' g = some s →
        g = .number true straddled :=
  texts_read_back _ _ (by simp)

theorem straddled_differs (negative : Bool) :
    floatRepr (.number negative straddled) ≠ Shared.floatRepr (.number negative straddled) := by
  cases negative <;> decide +kernel

/-- The operator and the kernel write the same of every double but `2 ^ -24`, of either sign. -/
theorem floatRepr_agree_iff (f : F64) :
    floatRepr f = Shared.floatRepr f ↔
      ∀ negative abs, f = .number negative abs → value abs.bits ≠ 2 ^ (-24 : ℤ) := by
  constructor
  · rintro h negative abs rfl hx
    have hval : value straddled.bits = 2 ^ (-24 : ℤ) := by decide +kernel
    have habs : abs = straddled := Magnitude.ext (value_strictMono.injective (hx.trans hval.symm))
    subst habs
    exact straddled_differs negative h
  · intro h
    cases f with
    | nan => rfl
    | number negative abs =>
      have hx := h negative abs rfl
      rw [floatRepr_eq_with]
      simp only [Shared.floatRepr, Shared.floatReprWith]
      by_cases hinf : abs.bits = infinity
      · rw [if_pos hinf, if_pos hinf]
      by_cases hzero : abs.bits = 0
      · rw [if_neg hinf, if_neg hinf, if_pos hzero, if_pos hzero]
      · have hpos : 0 < abs.bits := Nat.pos_of_ne_zero hzero
        rw [shortestRoundToEvenDigits_eq hpos (lt_of_le_of_ne abs.le hinf) hx]

end Myco.Operator
