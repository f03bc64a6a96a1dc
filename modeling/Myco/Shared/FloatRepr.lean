import Mathlib.Data.List.DropRight
import Myco.Lib.Decimal

/-!
# How the kernel writes a float

`float_repr` of `kernel/shared/src/canonical_bytes.rs`, the text that stands for an `f64` in
canonical bytes. What the standard library does is `scientificText`, for `{:.*e}`, and `ParsesAs`,
for `parse::<f64>`. A text is a list of characters until it is done; an `expect` that fails is
`none`.

The text reads as the same double, whatever the double (`floatRepr_parses`). Its digits are the
fewest that do, and of as many digits the nearest, where the neighbours of the double are equally
far (`fewest_digits`). Below a power of two the neighbour is twice as near as above, and there the
loop may pass over the shortest digits.
-/

namespace Myco.Shared

open Myco.Lib Binary64

/-! ### The code -/

/-- `format!("{abs:.*e}", p)` -/
def lowerExp (p : ℕ) (abs : Magnitude) : List Char :=
  scientificText halfEven false p (value abs.bits)

def splitOnce (c : Char) (s : List Char) : Option (List Char × List Char) :=
  if c ∈ s then some (s.takeWhile (· ≠ c), (s.dropWhile (· ≠ c)).tail) else none

/-- The loop that pops zeros off the end, as long as more than one digit is there. -/
def stripZeros : List Char → List Char
  | [] => []
  | d :: ds => d :: ds.rdropWhile (· = '0')

def parseScientific (s : List Char) : Option (List Char × ℤ) := do
  let (mantissa, expStr) ← splitOnce 'e' s
  let exp ← exponent? ('e' :: expStr)
  let digits := match splitOnce '.' mantissa with
    | some (intPart, frac) => intPart ++ frac
    | none => mantissa
  return (stripZeros digits, exp)

def shortestRoundToEvenDigits (abs : Magnitude) : Option (List Char × ℤ) :=
  match (List.range 18).find? fun p => ParsesAs (lowerExp p abs) (.number false abs) with
  | some p => parseScientific (lowerExp p abs)
  | none => parseScientific (lowerExp 17 abs)

def renderPositional (digits : List Char) (exp : ℤ) : List Char :=
  if 0 ≤ exp then
    let intLen := (exp + 1).toNat
    if digits.length ≤ intLen then
      digits ++ List.replicate (intLen - digits.length) '0' ++ ".0".toList
    else digits.take intLen ++ '.' :: digits.drop intLen
  else "0.".toList ++ List.replicate (-exp - 1).toNat '0' ++ digits

def renderExponential (digits : List Char) (exp : ℤ) : List Char :=
  let rest := digits.drop 1
  digits.take 1 ++ (if rest = [] then [] else '.' :: rest) ++
    'e' :: (if exp < 0 then '-' else '+') ::
      ((if exp.natAbs < 10 then ['0'] else []) ++ Nat.toDigits 10 exp.natAbs)

/-- The sign, the notation and the doubles without digits, whatever gives the digits. -/
def floatReprWith (digitsOf : Magnitude → Option (List Char × ℤ)) : F64 → Option String
  | .nan => some "nan"
  | .number negative abs =>
    if abs.bits = infinity then some (if negative then "-inf" else "inf")
    else if abs.bits = 0 then some (if negative then "-0.0" else "0.0")
    else do
      let (digits, exp) ← digitsOf abs
      let body :=
        if exp < -4 ∨ 16 ≤ exp then renderExponential digits exp else renderPositional digits exp
      return String.ofList (if negative then '-' :: body else body)

def floatRepr : F64 → Option String := floatReprWith shortestRoundToEvenDigits

/-! ### The digits -/

theorem stripZeros_append (ds : List Char) :
    ∃ k, ds = stripZeros ds ++ List.replicate k '0' := by
  cases ds with
  | nil => exact ⟨0, rfl⟩
  | cons d ds =>
    induction ds using List.reverseRecOn with
    | nil => exact ⟨0, rfl⟩
    | append_singleton ds c ih =>
      by_cases hc : c = '0'
      · obtain ⟨k, hk⟩ := ih
        refine ⟨k + 1, ?_⟩
        have hstrip : stripZeros (d :: (ds ++ [c])) = stripZeros (d :: ds) := by
          simp only [stripZeros]
          rw [List.rdropWhile_concat_pos _ _ _ (by simpa using hc)]
        rw [hstrip, List.replicate_succ', ← List.append_assoc, ← hk, hc]
        rfl
      · refine ⟨0, ?_⟩
        simp only [stripZeros]
        rw [List.rdropWhile_concat_neg _ _ _ (by simpa using hc)]
        exact (List.append_nil _).symm

theorem isDigits_stripZeros {ds : List Char} (h : IsDigits ds) : IsDigits (stripZeros ds) := by
  obtain ⟨k, hk⟩ := stripZeros_append ds
  refine ⟨?_, fun c hc => h.2 c (hk ▸ List.mem_append_left _ hc)⟩
  cases ds with
  | nil => exact absurd rfl h.1
  | cons d ds => exact List.cons_ne_nil _ _

theorem decimalValue_stripZeros (ds : List Char) (exp : ℤ) :
    decimalValue (stripZeros ds) exp = decimalValue ds exp := by
  obtain ⟨k, hk⟩ := stripZeros_append ds
  conv_rhs => rw [hk]
  exact (decimalValue_zeros _ k exp).symm

theorem length_stripZeros_le (ds : List Char) : (stripZeros ds).length ≤ ds.length := by
  obtain ⟨k, hk⟩ := stripZeros_append ds
  conv_rhs => rw [hk, List.length_append]
  omega

theorem splitOnce_append {c : Char} {a : List Char} (h : ∀ d ∈ a, d ≠ c) (b : List Char) :
    splitOnce c (a ++ c :: b) = some (a, b) := by
  have hpos : ∀ d ∈ a, decide (d ≠ c) = true := fun d hd => decide_eq_true (h d hd)
  unfold splitOnce
  rw [if_pos (by simp), List.takeWhile_append_of_pos hpos, List.dropWhile_append_of_pos hpos]
  simp

theorem splitOnce_none {c : Char} {a : List Char} (h : ∀ d ∈ a, d ≠ c) : splitOnce c a = none :=
  if_neg fun hc => h c hc rfl

theorem parseScientific_pointed {ds : List Char} (hds : IsDigits ds) {es : List Char} {e : ℤ}
    (he : exponent? ('e' :: es) = some e) :
    parseScientific (pointed ds ++ 'e' :: es) = some (stripZeros ds, e) := by
  obtain ⟨hne, hall⟩ := hds
  cases ds with
  | nil => exact absurd rfl hne
  | cons c cs =>
    have hc : c.isDigit = true := hall c List.mem_cons_self
    have hpoint : ∀ d ∈ [c], d ≠ '.' := by
      intro d hd
      rw [List.mem_singleton.1 hd]
      exact ne_of_isDigit hc rfl
    unfold parseScientific
    rw [splitOnce_append fun d hd => ne_letter_of_mem_pointed hall hd]
    cases cs with
    | nil =>
      rw [show pointed [c] = [c] from rfl]
      simp [he, splitOnce_none hpoint]
    | cons c' cs =>
      have hsplit : splitOnce '.' (pointed (c :: c' :: cs)) = some ([c], c' :: cs) :=
        splitOnce_append hpoint (c' :: cs)
      simp [he, hsplit]

theorem parseScientific_scientificText {round : ℚ → ℕ} (hround : ToNearest round) {x : ℚ}
    (hx : 0 < x) (plus : Bool) (p : ℕ) :
    ∃ digits exp, parseScientific (scientificText round plus p x) = some (digits, exp) ∧
      IsDigits digits ∧ decimalValue digits exp = roundedTo round p x ∧ digits.length ≤ p + 1 := by
  obtain ⟨hlow, hhigh⟩ := scientific_bounds hround hx p
  have hds := isDigits_toDigits (scientific round p x).1
  have hlen := length_toDigits hlow hhigh
  refine ⟨_, (scientific round p x).2, parseScientific_pointed hds (exponent?_exponentText plus _),
    isDigits_stripZeros hds, ?_, hlen ▸ length_stripZeros_le _⟩
  rw [decimalValue_stripZeros, decimalValue_scientific hround hx]

theorem toNearest_halfEven : ToNearest halfEven := fun _ => halfEven_near

/-- The loop stops at the first precision whose digits round to the double, and it does stop. -/
theorem shortestRoundToEvenDigits_spec {abs : Magnitude} (hpos : 0 < abs.bits)
    (hfin : abs.bits < infinity) :
    ∃ p digits exp, shortestRoundToEvenDigits abs = some (digits, exp) ∧
      (∀ j < p, ¬ RoundsOn value (roundedTo halfEven j (value abs.bits)) abs.bits) ∧
      RoundsOn value (roundedTo halfEven p (value abs.bits)) abs.bits ∧
      IsDigits digits ∧ decimalValue digits exp = roundedTo halfEven p (value abs.bits) ∧
      digits.length ≤ p + 1 := by
  obtain ⟨p, -, hp, hr, hleast⟩ := exists_precision toNearest_halfEven hpos hfin false
  obtain ⟨digits, exp, hparse, hd⟩ :=
    parseScientific_scientificText toNearest_halfEven (value_pos hpos) false p
  refine ⟨p, digits, exp, ?_, hleast, hr, hd⟩
  unfold shortestRoundToEvenDigits lowerExp
  rw [hp]
  exact hparse

/-! ### What is written -/

theorem says_renderExponential {ds : List Char} (hds : IsDigits ds) (exp : ℤ) :
    Says (renderExponential ds exp) (decimalValue ds exp) := by
  have hpad : IsDigits ((if exp.natAbs < 10 then ['0'] else []) ++ Nat.toDigits 10 exp.natAbs) := by
    obtain ⟨hne, hall⟩ := isDigits_toDigits exp.natAbs
    refine ⟨List.append_ne_nil_of_right_ne_nil _ hne, fun c hc => ?_⟩
    rcases List.mem_append.1 hc with hc | hc
    · split at hc
      · rw [List.mem_singleton.1 hc]
        rfl
      · cases hc
    · exact hall c hc
  have hvalue : digitsValue ((if exp.natAbs < 10 then ['0'] else []) ++
      Nat.toDigits 10 exp.natAbs) = exp.natAbs := by
    rw [digitsValue_append, digitsValue_toDigits]
    split <;> simp [digitsValue]
  have hexp : exponent? ('e' :: (if exp < 0 then '-' else '+') ::
      ((if exp.natAbs < 10 then ['0'] else []) ++ Nat.toDigits 10 exp.natAbs)) = some exp := by
    have h := exponent?_signed [if exp < 0 then '-' else '+'] hpad (by
      split
      · exact Or.inl rfl
      · exact Or.inr (Or.inl rfl))
    rw [hvalue] at h
    refine h.trans (congrArg some ?_)
    by_cases he : exp < 0
    · rw [if_pos he, if_pos rfl]
      omega
    · rw [if_neg he, if_neg (by decide)]
      omega
  have hpointed : ds.take 1 ++ (if ds.drop 1 = [] then [] else '.' :: ds.drop 1) = pointed ds := by
    cases ds with
    | nil => rfl
    | cons c cs => cases cs <;> rfl
  have hsaid := says_pointed hds hexp
  rw [← hpointed] at hsaid
  exact hsaid

theorem says_fraction {whole : List Char} (hw : IsDigits whole) (fraction : List Char)
    (hf : ∀ c ∈ fraction, c.isDigit = true) :
    Says (whole ++ '.' :: fraction) (digitsValue (whole ++ fraction) / 10 ^ fraction.length) := by
  obtain ⟨hne, hall⟩ := hw
  cases whole with
  | nil => exact absurd rfl hne
  | cons c cs =>
    refine ⟨⟨c, _, rfl, hall c List.mem_cons_self⟩, fun negative =>
      ⟨digitsValue (c :: cs ++ fraction), 0 - fraction.length, ?_, ?_⟩⟩
    · have h := number?_fraction ⟨hne, hall⟩ hf (.inl rfl) negative
      rwa [List.append_nil] at h
    · rw [zero_sub, zpow_neg, zpow_natCast, div_eq_mul_inv]

theorem says_renderPositional {ds : List Char} (hds : IsDigits ds) (exp : ℤ) :
    Says (renderPositional ds exp) (decimalValue ds exp) := by
  unfold renderPositional
  split
  · rename_i hexp
    dsimp only
    split
    · rename_i hlen
      -- all digits are whole, and zeros fill the places up to the point
      have hwhole : IsDigits (ds ++ List.replicate ((exp + 1).toNat - ds.length) '0') := by
        refine ⟨List.append_ne_nil_of_left_ne_nil hds.1 _, fun c hc => ?_⟩
        exact (List.mem_append.1 hc).elim (hds.2 c) isDigit_zeros
      have h := says_fraction hwhole ['0'] (List.forall_mem_singleton.2 rfl)
      have hval :
          (digitsValue (ds ++ List.replicate ((exp + 1).toNat - ds.length) '0' ++ ['0']) : ℚ) /
            10 ^ ['0'].length = decimalValue ds exp := by
        rw [← decimalValue_zeros ds ((exp + 1).toNat - ds.length)]
        unfold decimalValue
        rw [digitsValue_append, List.length_append, List.length_replicate,
          show exp + 1 - ((ds.length + ((exp + 1).toNat - ds.length) : ℕ) : ℤ) = 0 by omega]
        simp [digitsValue]
      rw [hval] at h
      exact h
    · rename_i hlen
      have hwhole : IsDigits (ds.take (exp + 1).toNat) := by
        refine ⟨fun hnil => ?_, fun c hc => hds.2 c (List.mem_of_mem_take hc)⟩
        rcases List.take_eq_nil_iff.1 hnil with hzero | hnil
        · omega
        · exact hds.1 hnil
      have h := says_fraction hwhole (ds.drop (exp + 1).toNat)
        fun c hc => hds.2 c (List.mem_of_mem_drop hc)
      rw [List.take_append_drop] at h
      have hval : (digitsValue ds : ℚ) / 10 ^ (ds.drop (exp + 1).toNat).length =
          decimalValue ds exp := by
        unfold decimalValue
        rw [List.length_drop, show exp + 1 - (ds.length : ℤ) =
          -((ds.length - (exp + 1).toNat : ℕ) : ℤ) by omega, zpow_neg, zpow_natCast,
          div_eq_mul_inv]
      rw [hval] at h
      exact h
  · rename_i hexp
    have hzero : IsDigits ['0'] := ⟨List.cons_ne_nil _ _, List.forall_mem_singleton.2 rfl⟩
    have h := says_fraction hzero
      (List.replicate (-exp - 1).toNat '0' ++ ds)
      fun c hc => (List.mem_append.1 hc).elim isDigit_zeros (hds.2 c)
    have hval : (digitsValue (['0'] ++ (List.replicate (-exp - 1).toNat '0' ++ ds)) : ℚ) /
        10 ^ (List.replicate (-exp - 1).toNat '0' ++ ds).length = decimalValue ds exp := by
      unfold decimalValue
      rw [digitsValue_append, digitsValue_append, digitsValue_zeros, List.length_append,
        List.length_replicate, show exp + 1 - (ds.length : ℤ) =
          -(((-exp - 1).toNat + ds.length : ℕ) : ℤ) by omega, zpow_neg, zpow_natCast,
        div_eq_mul_inv]
      simp [digitsValue]
    rw [hval] at h
    exact h

/-- Digits that round to the double make a text that reads as it. -/
theorem floatReprWith_parses {digitsOf : Magnitude → Option (List Char × ℤ)}
    (h : ∀ abs : Magnitude, 0 < abs.bits → abs.bits < infinity → ∃ digits exp,
      digitsOf abs = some (digits, exp) ∧ IsDigits digits ∧
        RoundsOn value (decimalValue digits exp) abs.bits) (f : F64) :
    ∃ s, floatReprWith digitsOf f = some s ∧ ParsesAs s.toList f := by
  cases f with
  | nan => exact ⟨"nan", rfl, .nan false, by decide, trivial⟩
  | number negative abs =>
    simp only [floatReprWith]
    by_cases hinf : abs.bits = infinity
    · rw [if_pos hinf]
      refine ⟨_, rfl, .infinity negative, ?_, rfl, hinf⟩
      cases negative <;> decide
    rw [if_neg hinf]
    by_cases hzero : abs.bits = 0
    · rw [if_pos hzero]
      refine ⟨_, rfl, .decimal negative 0 (-1), ?_, rfl, ?_⟩
      · cases negative <;> decide
      · unfold RoundsTo
        rw [hzero, if_pos (by decide), Nat.cast_zero, zero_mul]
        show 0 ≤ middle value 0
        rw [middle_value, value_zero]
        positivity
    rw [if_neg hzero]
    have hfin : abs.bits < infinity := lt_of_le_of_ne abs.le hinf
    obtain ⟨digits, exp, hd, hds, hr⟩ := h abs (Nat.pos_of_ne_zero hzero) hfin
    have hsaid : Says (if exp < -4 ∨ 16 ≤ exp then renderExponential digits exp
        else renderPositional digits exp) (decimalValue digits exp) := by
      split
      · exact says_renderExponential hds exp
      · exact says_renderPositional hds exp
    have hround : RoundsTo (decimalValue digits exp) abs.bits := by
      unfold RoundsTo
      rwa [if_pos hfin]
    rw [hd]
    refine ⟨_, rfl, ?_⟩
    rw [String.toList_ofList]
    exact (hsaid.parsesAs_iff negative abs).2 hround

theorem floatRepr_parses (f : F64) : ∃ s, floatRepr f = some s ∧ ParsesAs s.toList f :=
  floatReprWith_parses (fun abs hpos hfin => by
    obtain ⟨p, digits, exp, hshort, -, hr, hds, hval, -⟩ :=
      shortestRoundToEvenDigits_spec hpos hfin
    exact ⟨digits, exp, hshort, hds, hval ▸ hr⟩) f

/-! ### The fewest digits -/

/-- Where the neighbours are equally far, no number that reads as the double has fewer digits, and
none of as many digits is nearer. -/
theorem fewest_digits {m : ℕ} {d : ℚ} (hm : m + 1 < infinity) (hc : Centred value d m) :
    ∃ digits exp, shortestRoundToEvenDigits ⟨m + 1, hm.le⟩ = some (digits, exp) ∧
      RoundsOn value (decimalValue digits exp) (m + 1) ∧
      ∀ (n : ℕ) (k : ℤ), RoundsOn value (n * 10 ^ k) (m + 1) →
        digits.length ≤ (Nat.toDigits 10 n).length ∧
          ((Nat.toDigits 10 n).length = digits.length →
            |decimalValue digits exp - value (m + 1)| ≤ |n * 10 ^ k - value (m + 1)|) := by
  obtain ⟨p, digits, exp, hshort, hleast, hr, hds, hval, hlen⟩ :=
    @shortestRoundToEvenDigits_spec ⟨m + 1, hm.le⟩ (Nat.succ_pos m) hm
  refine ⟨digits, exp, hshort, hval ▸ hr, fun n k hn => ?_⟩
  have hx := value_pos (Nat.succ_pos m)
  have hnear : ∀ j, n < 10 ^ (j + 1) →
      |roundedTo halfEven j (value (m + 1)) - value (m + 1)| ≤ |n * 10 ^ k - value (m + 1)| :=
    fun j hj => rounded_le toNearest_halfEven hx j hj k
  have hp : p + 1 ≤ (Nat.toDigits 10 n).length := by
    by_contra hlt
    have hpos := Nat.length_toDigits_pos (b := 10) (n := n)
    obtain ⟨j, hj⟩ : ∃ j, (Nat.toDigits 10 n).length = j + 1 := ⟨_, (Nat.succ_pred hpos.ne').symm⟩
    have hn10 : n < 10 ^ (j + 1) :=
      (Nat.length_toDigits_le_iff (by decide) (Nat.succ_pos j)).1 hj.le
    exact hleast j (by omega) (hc.rounds_of_le (hnear j hn10) hn)
  refine ⟨hlen.trans hp, fun heq => ?_⟩
  rw [hval]
  exact hnear p ((Nat.length_toDigits_le_iff (by decide) (Nat.succ_pos p)).1 (by omega))

theorem fewest_digits_tenth :
    ∃ digits exp, shortestRoundToEvenDigits ⟨0x3fb999999999999a, by decide⟩ = some (digits, exp) ∧
      RoundsOn value (decimalValue digits exp) 0x3fb999999999999a ∧
      ∀ (n : ℕ) (k : ℤ), RoundsOn value (n * 10 ^ k) 0x3fb999999999999a →
        digits.length ≤ (Nat.toDigits 10 n).length ∧
          ((Nat.toDigits 10 n).length = digits.length →
            |decimalValue digits exp - value 0x3fb999999999999a| ≤
              |n * 10 ^ k - value 0x3fb999999999999a|) :=
  fewest_digits (m := 0x3fb9999999999999) (d := 2 ^ (-56 : ℤ)) (by decide)
    (by unfold Centred; decide +kernel)

/-- The digits of `2 ^ -44` are one more than they have to be. -/
example : shortestRoundToEvenDigits ⟨979 * 2 ^ 52, by decide⟩ =
      some ("56843418860808015".toList, -14) ∧
    RoundsOn value (decimalValue "5684341886080802".toList (-14)) (979 * 2 ^ 52) := by
  decide +kernel

end Myco.Shared
