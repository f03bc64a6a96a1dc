import Mathlib.Data.List.Basic
import Mathlib.Data.Fin.Basic
import Myco.Lib.Bytes

/-!
# Text as code points and as UTF-16

Strings of other languages, seen from a `String` of Unicode scalar values. A sequence of code
points may hold surrogates, which no `String` has; a sequence of UTF-16 code units may hold
surrogates that do not pair up. `codePoints` and `ofUnits` take both to code points, where the
three can be compared.
-/

namespace Myco.Lib

/-- A Unicode code point, surrogates included. -/
abbrev CodePoint := Fin 0x110000

/-- The code point of a scalar value. -/
def ofChar (c : Char) : CodePoint :=
  ⟨c.toNat, by rcases c.valid with h | ⟨_, h⟩ <;> simp only [Char.toNat, UInt32.toNat] at * <;> omega⟩

def codePoints (s : String) : List CodePoint := s.toList.map ofChar

/-- The scalar value of a code point, if it is not a surrogate. -/
def CodePoint.char? (p : CodePoint) : Option Char :=
  if p.val.isValidChar then some (Char.ofNat p.val) else none

@[simp] theorem char?_ofChar {c : Char} : CodePoint.char? (ofChar c) = some c := by
  have h : (ofChar c).val.isValidChar := c.valid
  rw [CodePoint.char?, if_pos h]
  exact congrArg some (Char.ofNat_toNat c)

theorem ofChar_injective : Function.Injective ofChar := by
  intro a b h
  have := congrArg CodePoint.char? h
  simpa using this

theorem codePoints_injective : Function.Injective codePoints := by
  intro s t h
  exact String.ext (List.map_injective_iff.2 ofChar_injective h)

@[simp] theorem codePoints_inj {s t : String} : codePoints s = codePoints t ↔ s = t :=
  codePoints_injective.eq_iff

/-- The text of a sequence of code points, if none is a surrogate. -/
def scalars? (ps : List CodePoint) : Option String :=
  (ps.mapM CodePoint.char?).map String.ofList

@[simp] theorem scalars?_codePoints {s : String} : scalars? (codePoints s) = some s := by
  have h : ∀ cs : List Char, (cs.map ofChar).mapM CodePoint.char? = some cs := by
    intro cs
    induction cs with
    | nil => rfl
    | cons c cs ih => simp [List.mapM_cons, ih]
  rw [scalars?, codePoints, h, Option.map_some, String.ofList_toList]

/-! ### UTF-16 -/

def isHigh (u : UInt16) : Prop := 0xD800 ≤ u.toNat ∧ u.toNat < 0xDC00

def isLow (u : UInt16) : Prop := 0xDC00 ≤ u.toNat ∧ u.toNat < 0xE000

instance (u : UInt16) : Decidable (isHigh u) := inferInstanceAs (Decidable (_ ∧ _))

instance (u : UInt16) : Decidable (isLow u) := inferInstanceAs (Decidable (_ ∧ _))

/-- The code point of a unit that stands alone. -/
def ofUnit (u : UInt16) : CodePoint := ⟨u.toNat, by have := u.toNat_lt; omega⟩

/-- The code point of a surrogate pair. -/
def ofPair (h l : UInt16) : CodePoint :=
  ⟨0x10000 + (h.toNat - 0xD800) % 0x400 * 0x400 + (l.toNat - 0xDC00) % 0x400, by omega⟩

/-- The code points of a sequence of units: pairs are joined, other surrogates stay. -/
def ofUnits : List UInt16 → List CodePoint
  | [] => []
  | [u] => [ofUnit u]
  | u :: v :: us =>
    if isHigh u ∧ isLow v then ofPair u v :: ofUnits us else ofUnit u :: ofUnits (v :: us)

/-- The units of a code point. -/
def CodePoint.units (p : CodePoint) : List UInt16 :=
  if p.val < 0x10000 then [UInt16.ofNat p.val]
  else [UInt16.ofNat (0xD800 + (p.val - 0x10000) / 0x400),
    UInt16.ofNat (0xDC00 + (p.val - 0x10000) % 0x400)]

theorem units_ofUnit {u : UInt16} : (ofUnit u).units = [u] := by
  have := u.toNat_lt
  rw [CodePoint.units, if_pos (by simpa [ofUnit] using this)]
  simp [ofUnit]

theorem units_ofPair {h l : UInt16} (hh : isHigh h) (hl : isLow l) :
    (ofPair h l).units = [h, l] := by
  obtain ⟨h1, h2⟩ := hh
  obtain ⟨l1, l2⟩ := hl
  rw [CodePoint.units, if_neg (by simp only [ofPair]; omega)]
  simp only [List.cons.injEq, and_true]
  constructor <;> apply UInt16.toNat_inj.1 <;>
    simp only [ofPair, UInt16.toNat_ofNat'] <;> omega

/-- The units can be told from the code points. -/
theorem flatMap_units_ofUnits (us : List UInt16) : (ofUnits us).flatMap CodePoint.units = us := by
  induction us using ofUnits.induct with
  | case1 => rfl
  | case2 u => simp [ofUnits, units_ofUnit]
  | case3 u v us hp ih =>
    rw [ofUnits, if_pos hp, List.flatMap_cons, units_ofPair hp.1 hp.2, ih]
    rfl
  | case4 u v us hp ih =>
    rw [ofUnits, if_neg hp, List.flatMap_cons, units_ofUnit, ih]
    rfl

theorem ofUnits_injective : Function.Injective ofUnits := by
  intro us vs h
  rw [← flatMap_units_ofUnits us, h, flatMap_units_ofUnits]

/-- The units of a scalar value begin no pair with what follows, and are one themselves if two. -/
theorem ofUnits_units_append {c : Char} {us : List UInt16} :
    ofUnits ((ofChar c).units ++ us) = ofChar c :: ofUnits us := by
  have hval : (ofChar c).val.isValidChar := c.valid
  have hlt := (ofChar c).isLt
  unfold CodePoint.units
  split
  · rename_i hsmall
    have hnat : (UInt16.ofNat (ofChar c).val).toNat = (ofChar c).val := by
      rw [UInt16.toNat_ofNat', Nat.mod_eq_of_lt hsmall]
    have hunit : ofUnit (UInt16.ofNat (ofChar c).val) = ofChar c := Fin.ext hnat
    have hhigh : ¬ isHigh (UInt16.ofNat (ofChar c).val) := by
      rintro ⟨h1, h2⟩
      rw [hnat] at h1 h2
      rcases hval with h | h <;> omega
    cases us with
    | nil => simp [ofUnits, hunit]
    | cons u us =>
      simp only [List.singleton_append]
      rw [ofUnits, if_neg (fun h => hhigh h.1), hunit]
  · rename_i hlarge
    have hdiv : ((ofChar c).val - 0x10000) / 0x400 < 0x400 := by omega
    have h1 : (UInt16.ofNat (0xD800 + ((ofChar c).val - 0x10000) / 0x400)).toNat =
        0xD800 + ((ofChar c).val - 0x10000) / 0x400 := by
      rw [UInt16.toNat_ofNat']
      omega
    have h2 : (UInt16.ofNat (0xDC00 + ((ofChar c).val - 0x10000) % 0x400)).toNat =
        0xDC00 + ((ofChar c).val - 0x10000) % 0x400 := by
      rw [UInt16.toNat_ofNat']
      omega
    have hpair : isHigh (UInt16.ofNat (0xD800 + ((ofChar c).val - 0x10000) / 0x400)) ∧
        isLow (UInt16.ofNat (0xDC00 + ((ofChar c).val - 0x10000) % 0x400)) := by
      unfold isHigh isLow
      rw [h1, h2]
      omega
    have hval : ofPair (UInt16.ofNat (0xD800 + ((ofChar c).val - 0x10000) / 0x400))
        (UInt16.ofNat (0xDC00 + ((ofChar c).val - 0x10000) % 0x400)) = ofChar c := by
      refine Fin.ext ?_
      unfold ofPair
      simp only
      rw [h1, h2]
      omega
    rw [List.cons_append, List.cons_append, List.nil_append, ofUnits, if_pos hpair, hval]

/-- The units of a text stand for its code points. -/
theorem ofUnits_flatMap_units {s : String} :
    ofUnits ((codePoints s).flatMap CodePoint.units) = codePoints s := by
  have h : ∀ cs : List Char, ofUnits ((cs.map ofChar).flatMap CodePoint.units) = cs.map ofChar := by
    intro cs
    induction cs with
    | nil => rfl
    | cons c cs ih => rw [List.map_cons, List.flatMap_cons, ofUnits_units_append, ih]
  exact h s.toList

/-- The scalar value a code point is converted to: a surrogate becomes U+FFFD. -/
def CodePoint.toScalar (p : CodePoint) : Char := p.char?.getD (Char.ofNat 0xFFFD)

/-- Units as text, every surrogate without its partner replaced by U+FFFD. -/
def usvString (us : List UInt16) : String := String.ofList ((ofUnits us).map CodePoint.toScalar)

theorem usvString_eq {us : List UInt16} {s : String} (h : ofUnits us = codePoints s) :
    usvString us = s := by
  have hid : ∀ cs : List Char, (cs.map ofChar).map CodePoint.toScalar = cs := by
    intro cs
    induction cs with
    | nil => rfl
    | cons c cs ih => simpa [CodePoint.toScalar] using ih
  rw [usvString, h, codePoints, hid, String.ofList_toList]

end Myco.Lib
