import Mathlib.Data.Int.Log
import Myco.Lib.Binary64

/-!
# Decimal texts

A number to so many significant digits, as the formatters of two languages round it and write it
down (`scientific`, `scientificText`), and what such a text says when it is read as a literal.
`Says` is what the results are about: a text without a sign that reads as a number, whatever sign
stands in front of it.
-/

namespace Myco.Lib

/-! ### Digits -/

def IsDigits (ds : List Char) : Prop := ds ≠ [] ∧ ∀ c ∈ ds, c.isDigit = true

instance : DecidablePred IsDigits := fun ds =>
  inferInstanceAs (Decidable (ds ≠ [] ∧ ∀ c ∈ ds, c.isDigit = true))

theorem digitsValue_append (ds es : List Char) :
    digitsValue (ds ++ es) = digitsValue ds * 10 ^ es.length + digitsValue es := by
  show Nat.ofDigitChars 10 (ds ++ es) 0 = Nat.ofDigitChars 10 ds 0 * _ + Nat.ofDigitChars 10 es 0
  rw [Nat.ofDigitChars_append, Nat.ofDigitChars_eq_ofDigitChars_zero, Nat.mul_comm]

theorem digitsValue_toDigits (n : ℕ) : digitsValue (Nat.toDigits 10 n) = n :=
  Nat.ofDigitChars_ten_toDigits

theorem digitsValue_zeros (n : ℕ) : digitsValue (List.replicate n '0') = 0 := by
  show Nat.ofDigitChars 10 _ 0 = 0
  rw [Nat.ofDigitChars_replicate_zero, Nat.mul_zero]

theorem isDigits_toDigits (n : ℕ) : IsDigits (Nat.toDigits 10 n) :=
  ⟨Nat.toDigits_ne_nil, fun _ h => Nat.isDigit_of_mem_toDigits (by decide) (by decide) h⟩

theorem isDigit_zeros {n : ℕ} {c : Char} (h : c ∈ List.replicate n '0') : c.isDigit = true := by
  rw [List.eq_of_mem_replicate h]
  rfl

theorem length_toDigits {n p : ℕ} (h : 10 ^ p ≤ n) (h' : n < 10 ^ (p + 1)) :
    (Nat.toDigits 10 n).length = p + 1 := by
  have hle := (Nat.length_toDigits_le_iff (n := n) (by decide : 1 < 10) (by omega : 0 < p + 1)).2 h'
  have hpos := Nat.length_toDigits_pos (b := 10) (n := n)
  rcases Nat.eq_zero_or_pos p with rfl | hp
  · omega
  · have hgt := mt (Nat.length_toDigits_le_iff (n := n) (by decide : 1 < 10) hp).1 (by omega)
    omega

/-! ### Reading a literal -/

/-- Whatever sign stands in front, the text reads as the number with that sign. -/
def Says (cs : List Char) (q : ℚ) : Prop :=
  (∃ c rest, cs = c :: rest ∧ c.isDigit = true) ∧
    ∀ negative, ∃ digits exponent,
      number? negative cs = some (.decimal negative digits exponent) ∧
        (digits : ℚ) * 10 ^ exponent = q

def withSign (negative : Bool) (cs : List Char) : List Char := if negative then '-' :: cs else cs

theorem toLower_of_isDigit {c : Char} (h : c.isDigit = true) : c.toLower = c := by
  obtain ⟨h1, h2⟩ := isDigit_toNat h
  unfold Char.toLower
  rw [dif_neg]
  intro hu
  simp only [ge_iff_le, UInt32.le_iff_toNat_le] at hu
  have : 65 ≤ c.toNat := hu.1
  omega

theorem signOf_of_isDigit {c : Char} {cs : List Char} (h : c.isDigit = true) :
    signOf (c :: cs) = (false, c :: cs) := by
  unfold signOf
  split
  · rename_i heq
    cases heq
    cases h
  · rename_i heq
    cases heq
    cases h
  · rfl

theorem literal?_of_isDigit {c : Char} {cs : List Char} (h : c.isDigit = true) :
    literal? (c :: cs) = number? false (c :: cs) ∧
      literal? ('-' :: c :: cs) = number? true (c :: cs) := by
  have hword : ∀ w ∈ ["inf".toList, "infinity".toList, "nan".toList],
      (c :: cs).map Char.toLower ≠ w := by
    intro w hw heq
    rw [List.map_cons, toLower_of_isDigit h] at heq
    have hhead : ∀ w ∈ ["inf".toList, "infinity".toList, "nan".toList],
        w.head?.all (fun d => ! d.isDigit) = true := by decide
    have := hhead w hw
    rw [← heq] at this
    simp [h] at this
  have hinf : (c :: cs).map Char.toLower ∉ infinityWords := by
    intro hin
    simp only [infinityWords, List.mem_cons, List.not_mem_nil, or_false] at hin
    exact hin.elim (hword _ (by decide)) (hword _ (by decide))
  constructor
  · unfold literal?
    rw [signOf_of_isDigit h]
    dsimp only
    rw [if_neg hinf, if_neg (hword _ (by decide))]
  · have hsign : signOf ('-' :: c :: cs) = (true, c :: cs) := rfl
    unfold literal?
    rw [hsign]
    dsimp only
    rw [if_neg hinf, if_neg (hword _ (by decide))]

theorem Says.parsesAs_iff {cs : List Char} {q : ℚ} (h : Says cs q) (negative : Bool)
    (abs : Magnitude) :
    ParsesAs (withSign negative cs) (.number negative abs) ↔ RoundsTo q abs.bits := by
  obtain ⟨⟨c, rest, rfl, hc⟩, h⟩ := h
  obtain ⟨digits, exponent, hn, rfl⟩ := h negative
  have hlit : literal? (withSign negative (c :: rest)) =
      some (.decimal negative digits exponent) := by
    cases negative with
    | false => exact (literal?_of_isDigit hc).1.trans hn
    | true => exact (literal?_of_isDigit hc).2.trans hn
  unfold ParsesAs
  rw [hlit]
  constructor
  · rintro ⟨l, hl, h⟩
    cases hl
    exact h.2
  · exact fun h => ⟨_, rfl, rfl, h⟩

/-- What may follow the digits of a number. -/
def NumberEnd (rest : List Char) : Prop := rest = [] ∨ ∃ es, rest = 'e' :: es

theorem takeWhile_digits {ds : List Char} (rest : List Char) (hds : ∀ c ∈ ds, c.isDigit = true)
    (hrest : rest.takeWhile Char.isDigit = []) :
    (ds ++ rest).takeWhile Char.isDigit = ds ∧ (ds ++ rest).dropWhile Char.isDigit = rest := by
  constructor
  · rw [List.takeWhile_append_of_pos hds, hrest, List.append_nil]
  · rw [List.dropWhile_append_of_pos hds]
    have := List.takeWhile_append_dropWhile (p := Char.isDigit) (l := rest)
    rwa [hrest] at this

theorem NumberEnd.takeWhile {rest : List Char} (h : NumberEnd rest) :
    rest.takeWhile Char.isDigit = [] := by
  obtain rfl | ⟨es, rfl⟩ := h <;> rfl

theorem NumberEnd.fractionOf {rest : List Char} (h : NumberEnd rest) :
    fractionOf rest = ([], rest) := by
  obtain rfl | ⟨es, rfl⟩ := h <;> rfl

theorem number?_whole {whole rest : List Char} (hw : IsDigits whole) (hrest : NumberEnd rest)
    (negative : Bool) :
    number? negative (whole ++ rest) =
      (exponent? rest).map fun e => .decimal negative (digitsValue whole) e := by
  obtain ⟨htake, hdrop⟩ := takeWhile_digits rest hw.2 hrest.takeWhile
  unfold number?
  rw [htake, hdrop, hrest.fractionOf]
  simp [hw.1]

theorem number?_fraction {whole fraction rest : List Char} (hw : IsDigits whole)
    (hf : ∀ c ∈ fraction, c.isDigit = true) (hrest : NumberEnd rest) (negative : Bool) :
    number? negative (whole ++ '.' :: (fraction ++ rest)) =
      (exponent? rest).map fun e =>
        .decimal negative (digitsValue (whole ++ fraction)) (e - fraction.length) := by
  obtain ⟨htake, hdrop⟩ := takeWhile_digits ('.' :: (fraction ++ rest)) hw.2 rfl
  obtain ⟨hftake, hfdrop⟩ := takeWhile_digits rest hf hrest.takeWhile
  have hfrac : fractionOf ('.' :: (fraction ++ rest)) = (fraction, rest) :=
    Prod.ext hftake hfdrop
  unfold number?
  rw [htake, hdrop, hfrac]
  simp [hw.1]

/-! ### Digits, a point and an exponent -/

/-- The number whose first digit stands for so many tens. -/
def decimalValue (ds : List Char) (exp : ℤ) : ℚ := digitsValue ds * 10 ^ (exp + 1 - ds.length)

/-- Zeros at the end leave the number as it is. -/
theorem decimalValue_zeros (ds : List Char) (k : ℕ) (exp : ℤ) :
    decimalValue (ds ++ List.replicate k '0') exp = decimalValue ds exp := by
  have hexp : exp + 1 - ds.length = (exp + 1 - (ds ++ List.replicate k '0').length) + k := by
    rw [List.length_append, List.length_replicate]
    push_cast
    ring
  unfold decimalValue
  rw [hexp, zpow_add₀ (by norm_num), zpow_natCast, digitsValue_append, digitsValue_zeros,
    List.length_replicate]
  push_cast
  ring

/-- A point after the first digit, where there are more. -/
def pointed : List Char → List Char
  | [] => []
  | [c] => [c]
  | c :: ds => c :: '.' :: ds

theorem ne_of_isDigit {c d : Char} (hd : d.isDigit = true) (hc : c.isDigit = false) : d ≠ c := by
  rintro rfl
  rw [hd] at hc
  cases hc

theorem ne_letter_of_mem_pointed {ds : List Char} (hds : ∀ c ∈ ds, c.isDigit = true) {d : Char}
    (hd : d ∈ pointed ds) : d ≠ 'e' := by
  cases ds with
  | nil => cases hd
  | cons c cs =>
    cases cs with
    | nil => exact ne_of_isDigit (hds d hd) rfl
    | cons c' cs =>
      rcases List.mem_cons.1 hd with rfl | hd
      · exact ne_of_isDigit (hds _ List.mem_cons_self) rfl
      · rcases List.mem_cons.1 hd with rfl | hd
        · decide
        · exact ne_of_isDigit (hds d (List.mem_cons_of_mem _ hd)) rfl

def exponentText (plus : Bool) (e : ℤ) : List Char :=
  (if e < 0 then ['-'] else if plus then ['+'] else []) ++ Nat.toDigits 10 e.natAbs

theorem exponent?_signed (sign : List Char) {ds : List Char} (hds : IsDigits ds)
    (hsign : sign = ['-'] ∨ sign = ['+'] ∨ sign = []) :
    exponent? ('e' :: (sign ++ ds)) =
      some (if sign = ['-'] then -(digitsValue ds : ℤ) else digitsValue ds) := by
  have hsig : signOf (sign ++ ds) = (decide (sign = ['-']), ds) := by
    rcases hsign with rfl | rfl | rfl
    · rfl
    · rfl
    · obtain ⟨hne, hall⟩ := hds
      cases ds with
      | nil => exact absurd rfl hne
      | cons c cs => exact signOf_of_isDigit (hall c List.mem_cons_self)
  simp only [exponent?, hsig, decide_eq_true_eq]
  rw [if_pos ⟨Or.inl trivial, hds.1, List.all_eq_true.2 hds.2⟩]

theorem exponent?_exponentText (plus : Bool) (e : ℤ) :
    exponent? ('e' :: exponentText plus e) = some e := by
  unfold exponentText
  rw [exponent?_signed _ (isDigits_toDigits _), digitsValue_toDigits]
  · by_cases he : e < 0
    · rw [if_pos he, if_pos rfl]
      congr 1
      omega
    · rw [if_neg he, if_neg (by cases plus <;> decide)]
      congr 1
      omega
  · split
    · exact Or.inl rfl
    · split
      · exact Or.inr (Or.inl rfl)
      · exact Or.inr (Or.inr rfl)

theorem says_pointed {ds es : List Char} {e : ℤ} (hds : IsDigits ds)
    (he : exponent? ('e' :: es) = some e) : Says (pointed ds ++ 'e' :: es) (decimalValue ds e) := by
  obtain ⟨hne, hall⟩ := hds
  cases ds with
  | nil => exact absurd rfl hne
  | cons c cs =>
    have hc : c.isDigit = true := hall c List.mem_cons_self
    have hone : IsDigits [c] := ⟨List.cons_ne_nil _ _, by simpa using hc⟩
    cases cs with
    | nil =>
      refine ⟨⟨c, _, rfl, hc⟩, fun negative => ⟨digitsValue [c], e, ?_, ?_⟩⟩
      · exact (number?_whole hone (.inr ⟨es, rfl⟩) negative).trans (by rw [he]; rfl)
      · simp [decimalValue]
    | cons d cs =>
      refine ⟨⟨c, _, rfl, hc⟩, fun negative =>
        ⟨digitsValue (c :: d :: cs), e - (d :: cs).length, ?_, ?_⟩⟩
      · have hf : ∀ x ∈ d :: cs, x.isDigit = true := fun x hx => hall x (List.mem_cons_of_mem _ hx)
        exact (number?_fraction hone hf (.inr ⟨es, rfl⟩) negative).trans (by rw [he]; rfl)
      · unfold decimalValue
        congr 2
        simp only [List.length_cons]
        push_cast
        ring

/-! ### So many significant digits -/

/-- `p + 1` significant digits of a number, and the tens that the first one stands for. A number
that is rounded up to the next power of ten has one digit too many, and gives up a zero. -/
def scientific (round : ℚ → ℕ) (p : ℕ) (x : ℚ) : ℕ × ℤ :=
  let exp := Int.log 10 x
  let n := round (x / 10 ^ (exp - p))
  if n = 10 ^ (p + 1) then (10 ^ p, exp + 1) else (n, exp)

def scientificText (round : ℚ → ℕ) (plus : Bool) (p : ℕ) (x : ℚ) : List Char :=
  let (n, exp) := scientific round p x
  pointed (Nat.toDigits 10 n) ++ 'e' :: exponentText plus exp

/-- The unit of the last digit. -/
def lastPlace (p : ℕ) (x : ℚ) : ℚ := 10 ^ (Int.log 10 x - p)

/-- The number to `p + 1` significant digits. -/
def roundedTo (round : ℚ → ℕ) (p : ℕ) (x : ℚ) : ℚ := round (x / lastPlace p x) * lastPlace p x

def ToNearest (round : ℚ → ℕ) : Prop := ∀ q, 0 ≤ q → |(round q : ℚ) - q| ≤ 1 / 2

section
variable {round : ℚ → ℕ} (hround : ToNearest round) {x : ℚ} (hx : 0 < x) (p : ℕ)

theorem lastPlace_pos : 0 < lastPlace p x := by
  unfold lastPlace
  positivity

theorem ten_zpow_log : (10 : ℚ) ^ Int.log 10 x = 10 ^ p * lastPlace p x := by
  unfold lastPlace
  rw [zpow_sub₀ (by norm_num), zpow_natCast]
  field_simp

include hx in
theorem scaled_bounds : (10 : ℚ) ^ p ≤ x / lastPlace p x ∧ x / lastPlace p x < 10 ^ (p + 1) := by
  have hu := lastPlace_pos (x := x) p
  have hlow := Int.zpow_log_le_self (b := 10) (by decide) hx
  have hhigh := Int.lt_zpow_succ_log_self (b := 10) (by decide) x
  push_cast at hlow hhigh
  rw [zpow_add_one₀ (by norm_num), ten_zpow_log p] at hhigh
  rw [ten_zpow_log p] at hlow
  constructor
  · rwa [le_div_iff₀ hu]
  · rw [div_lt_iff₀ hu, pow_succ]
    linarith

include hround hx in
theorem round_bounds :
    10 ^ p ≤ round (x / lastPlace p x) ∧ round (x / lastPlace p x) ≤ 10 ^ (p + 1) := by
  obtain ⟨hlow, hhigh⟩ := scaled_bounds hx p
  have hq : (0 : ℚ) ≤ x / lastPlace p x := le_trans (by positivity) hlow
  obtain ⟨h1, h2⟩ := abs_le.1 (hround _ hq)
  constructor
  · by_contra h
    have : (round (x / lastPlace p x) : ℚ) + 1 ≤ 10 ^ p := by exact_mod_cast not_le.1 h
    linarith
  · by_contra h
    have : (10 : ℚ) ^ (p + 1) + 1 ≤ round (x / lastPlace p x) := by exact_mod_cast not_le.1 h
    linarith

theorem scientific_cases (round : ℚ → ℕ) :
    round (x / lastPlace p x) = 10 ^ (p + 1) ∧
        scientific round p x = (10 ^ p, Int.log 10 x + 1) ∨
      scientific round p x = (round (x / lastPlace p x), Int.log 10 x) := by
  unfold scientific lastPlace
  dsimp only
  split
  · exact Or.inl ⟨by assumption, rfl⟩
  · exact Or.inr rfl

include hround hx in
theorem scientific_bounds :
    10 ^ p ≤ (scientific round p x).1 ∧ (scientific round p x).1 < 10 ^ (p + 1) := by
  obtain ⟨hlow, hhigh⟩ := round_bounds hround hx p
  unfold scientific
  dsimp only
  split
  · exact ⟨le_rfl, Nat.pow_lt_pow_right (by decide) (Nat.lt_succ_self p)⟩
  · rename_i hne
    exact ⟨hlow, lt_of_le_of_ne hhigh hne⟩

theorem scientific_value :
    ((scientific round p x).1 : ℚ) * 10 ^ ((scientific round p x).2 - p) =
      roundedTo round p x := by
  unfold scientific roundedTo lastPlace
  dsimp only
  split
  · rename_i h
    rw [h, show Int.log 10 x + 1 - p = (Int.log 10 x - p) + 1 by ring,
      zpow_add_one₀ (by norm_num)]
    push_cast
    ring
  · rfl

include hround hx in
theorem decimalValue_scientific :
    decimalValue (Nat.toDigits 10 (scientific round p x).1) (scientific round p x).2 =
      roundedTo round p x := by
  obtain ⟨hlow, hhigh⟩ := scientific_bounds hround hx p
  unfold decimalValue
  rw [digitsValue_toDigits, length_toDigits hlow hhigh, ← scientific_value]
  congr 2
  push_cast
  ring

include hround hx in
/-- What is written down says the rounded number. -/
theorem says_scientificText (plus : Bool) :
    Says (scientificText round plus p x) (roundedTo round p x) := by
  rw [← decimalValue_scientific hround hx]
  exact says_pointed (isDigits_toDigits _) (exponent?_exponentText plus _)

include hround hx in
theorem rounded_near : |roundedTo round p x - x| ≤ lastPlace p x / 2 := by
  have hu := lastPlace_pos (x := x) p
  have h := hround (x / lastPlace p x) (by positivity)
  have heq : roundedTo round p x - x =
      (round (x / lastPlace p x) - x / lastPlace p x) * lastPlace p x := by
    unfold roundedTo
    field_simp
  rw [heq, abs_mul, abs_of_pos hu]
  linarith [mul_le_mul_of_nonneg_right h hu.le]

include hround hx in
/-- No multiple of the unit is nearer. -/
theorem rounded_le_multiple (n : ℕ) :
    |roundedTo round p x - x| ≤ |n * lastPlace p x - x| := by
  have hu := lastPlace_pos (x := x) p
  have h := near_le (hround (x / lastPlace p x) (by positivity)) n
  have heq : ∀ k : ℕ, k * lastPlace p x - x = (k - x / lastPlace p x) * lastPlace p x := by
    intro k
    field_simp
  unfold roundedTo
  rw [heq, heq, abs_mul, abs_mul, abs_of_pos hu]
  exact mul_le_mul_of_nonneg_right h hu.le

include hround hx in
/-- No number of as many digits is nearer, wherever its digits stand. -/
theorem rounded_le {n : ℕ} (hn : n < 10 ^ (p + 1)) (k : ℤ) :
    |roundedTo round p x - x| ≤ |n * 10 ^ k - x| := by
  rcases le_or_gt (Int.log 10 x - p) k with hk | hk
  · -- a multiple of the unit
    obtain ⟨j, hj⟩ := Int.eq_ofNat_of_zero_le (sub_nonneg.2 hk)
    have heq : (n : ℚ) * 10 ^ k = (n * 10 ^ j : ℕ) * lastPlace p x := by
      unfold lastPlace
      rw [show k = j + (Int.log 10 x - p) by omega, zpow_add₀ (by norm_num), zpow_natCast]
      push_cast
      ring
    rw [heq]
    exact rounded_le_multiple hround hx p _
  · -- less than the power of ten below `x`, which is a multiple of the unit
    have hpow := Int.zpow_log_le_self (b := 10) (by decide) hx
    push_cast at hpow
    have hlt : (n : ℚ) * 10 ^ k ≤ 10 ^ Int.log 10 x := by
      have hn : (n : ℚ) ≤ 10 ^ (p + 1) := by exact_mod_cast hn.le
      calc (n : ℚ) * 10 ^ k ≤ 10 ^ (p + 1) * 10 ^ k := by gcongr
        _ = 10 ^ ((p + 1 : ℕ) + k) := by rw [zpow_add₀ (by norm_num), zpow_natCast]
        _ ≤ 10 ^ Int.log 10 x := zpow_le_zpow_right₀ (by norm_num) (by push_cast; omega)
    have h := rounded_le_multiple hround hx p (10 ^ p)
    push_cast at h
    rw [← ten_zpow_log p, abs_of_nonpos (by linarith : (10 : ℚ) ^ Int.log 10 x - x ≤ 0)] at h
    rw [abs_of_nonpos (by linarith : (n : ℚ) * 10 ^ k - x ≤ 0)]
    linarith

end

/-! ### The digits of a double -/

open Binary64

section
variable {round : ℚ → ℕ} (hround : ToNearest round)
include hround

theorem parsesAs_scientificText {abs : Magnitude} (hpos : 0 < abs.bits)
    (hfin : abs.bits < infinity) (plus : Bool) (p : ℕ) :
    ParsesAs (scientificText round plus p (value abs.bits)) (.number false abs) ↔
      RoundsOn value (roundedTo round p (value abs.bits)) abs.bits := by
  have h := (says_scientificText hround (value_pos hpos) p plus).parsesAs_iff false abs
  unfold RoundsTo at h
  rwa [if_pos hfin] at h

/-- Seventeen significant digits round to the double they are of. -/
theorem rounds_sixteen {m : ℕ} (hpos : 0 < m) :
    RoundsOn value (roundedTo round 16 (value m)) m := by
  obtain ⟨m, rfl⟩ : ∃ i, m = i + 1 := ⟨m - 1, by omega⟩
  have hx := value_pos hpos
  have hlog := Int.zpow_log_le_self (b := 10) (by decide) hx
  push_cast at hlog
  rw [ten_zpow_log 16] at hlog
  have hstep : (0 : ℚ) < 2 ^ exponent m := by positivity
  refine rounds_of_near ((rounded_near hround hx 16).trans_lt ?_)
  linarith [value_succ_le m]

/-- The first precision whose digits read as the double, and there is one. -/
theorem exists_precision {abs : Magnitude} (hpos : 0 < abs.bits) (hfin : abs.bits < infinity)
    (plus : Bool) :
    ∃ p < 18, (List.range 18).find? (fun p => decide (ParsesAs
        (scientificText round plus p (value abs.bits)) (.number false abs))) = some p ∧
      RoundsOn value (roundedTo round p (value abs.bits)) abs.bits ∧
      ∀ j < p, ¬ RoundsOn value (roundedTo round j (value abs.bits)) abs.bits := by
  have hparse := parsesAs_scientificText hround hpos hfin plus
  obtain ⟨p, hp⟩ : ∃ p, (List.range 18).find? (fun p => decide (ParsesAs
      (scientificText round plus p (value abs.bits)) (.number false abs))) = some p := by
    rw [← Option.isSome_iff_exists, List.find?_isSome]
    exact ⟨16, by simp, decide_eq_true ((hparse 16).2 (rounds_sixteen hround hpos))⟩
  obtain ⟨hfound, hmem, hbefore⟩ := List.find?_range_eq_some.1 hp
  refine ⟨p, List.mem_range.1 hmem, hp, (hparse p).1 (of_decide_eq_true hfound), fun j hj hr => ?_⟩
  simpa [(hparse j).2 hr] using hbefore j hj

end

end Myco.Lib
