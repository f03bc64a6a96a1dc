import Mathlib.Data.List.DropRight

/-!
# Decimal literals of two languages

What `f64::from_str` of Rust and `float` of Python take for a number. Both read the grammar
`literal?`; Python reads it after it has turned the digits and the white space of other scripts
into ASCII, dropped underscores between digits and stripped white space from both ends. So
whatever Rust reads, Python reads the same (`pyFloat_of_f64FromStr`), and not the other way round.

A literal is what it says, before it is rounded to a float.
-/

namespace Myco.Lib

inductive Literal where
  | infinity (negative : Bool)
  | nan (negative : Bool)
  /-- `digits * 10 ^ exponent` -/
  | decimal (negative : Bool) (digits : Nat) (exponent : Int)
deriving DecidableEq

/-! ### The grammar -/

def digitsValue (ds : List Char) : Nat := ds.foldl (fun v c => 10 * v + (c.toNat - 48)) 0

/-- Whether there is a minus in front, and what comes after the sign. -/
def signOf : List Char → Bool × List Char
  | '-' :: cs => (true, cs)
  | '+' :: cs => (false, cs)
  | cs => (false, cs)

def exponent? : List Char → Option Int
  | [] => some 0
  | c :: cs =>
    if (c = 'e' ∨ c = 'E') ∧ (signOf cs).2 ≠ [] ∧ (signOf cs).2.all Char.isDigit then
      some (if (signOf cs).1 then -digitsValue (signOf cs).2 else digitsValue (signOf cs).2)
    else none

/-- The digits after the point, and what comes after them. -/
def fractionOf : List Char → List Char × List Char
  | '.' :: cs => (cs.takeWhile Char.isDigit, cs.dropWhile Char.isDigit)
  | cs => ([], cs)

def number? (negative : Bool) (cs : List Char) : Option Literal :=
  let whole := cs.takeWhile Char.isDigit
  let (fraction, rest) := fractionOf (cs.dropWhile Char.isDigit)
  if whole = [] ∧ fraction = [] then none
  else (exponent? rest).map fun e =>
    .decimal negative (digitsValue (whole ++ fraction)) (e - fraction.length)

def infinityWords : List (List Char) := ["inf".toList, "infinity".toList]

def literal? (cs : List Char) : Option Literal :=
  let (negative, cs) := signOf cs
  if cs.map Char.toLower ∈ infinityWords then some (.infinity negative)
  else if cs.map Char.toLower = "nan".toList then some (.nan negative)
  else number? negative cs

/-- `s.parse::<f64>()` -/
def f64FromStr (s : String) : Option Literal := literal? s.toList

/-! ### Python's reading -/

/-- What Python's Unicode database says about a character that is not ASCII. -/
structure CharTable where
  isSpace : Char → Bool
  decimal : Char → Option (Fin 10)

/-- `_PyUnicode_TransformDecimalAndSpaceToASCII`, one character. -/
def CharTable.toAscii (t : CharTable) (c : Char) : Char :=
  if c.toNat < 128 then c
  else if t.isSpace c then ' '
  else match t.decimal c with
    | some d => Char.ofNat (48 + d)
    | none => '?'

/-- `Py_ISSPACE` -/
def isAsciiSpace (c : Char) : Bool := c.toNat = 32 || 9 ≤ c.toNat && c.toNat ≤ 13

/-- Drops the underscores, each of which has to stand between two digits. -/
def dropUnderscores (prev : Char) : List Char → Option (List Char)
  | [] => if prev = '_' then none else some []
  | c :: cs =>
    if c = '_' then if prev.isDigit then dropUnderscores c cs else none
    else if prev = '_' ∧ ¬ c.isDigit then none
    else (dropUnderscores c cs).map (c :: ·)

/-- `float(s)` -/
def pyFloat (t : CharTable) (s : String) : Option Literal :=
  (dropUnderscores (Char.ofNat 0) (s.toList.map t.toAscii)).bind fun cs =>
    literal? ((cs.dropWhile isAsciiSpace).rdropWhile isAsciiSpace)

/-! ### The characters of a literal -/

/-- A character that Python reads as it is. -/
def Plain (c : Char) : Prop := c.toNat < 128 ∧ c ≠ '_' ∧ isAsciiSpace c = false

instance : DecidablePred Plain := fun _ => inferInstanceAs (Decidable (_ ∧ _ ∧ _))

theorem isDigit_toNat {c : Char} (h : c.isDigit = true) : 48 ≤ c.toNat ∧ c.toNat ≤ 57 := by
  simp only [Char.isDigit, Bool.and_eq_true, decide_eq_true_eq, ge_iff_le,
    UInt32.le_iff_toNat_le] at h
  exact h

theorem plain_of_toNat {c : Char} (h : 33 ≤ c.toNat) (h' : c.toNat < 128) (hu : c.toNat ≠ 95) :
    Plain c := by
  refine ⟨h', fun hc => hu (by rw [hc]; rfl), ?_⟩
  simp only [isAsciiSpace, Bool.or_eq_false_iff, Bool.and_eq_false_iff, decide_eq_false_iff_not]
  omega

theorem plain_of_isDigit {c : Char} (h : c.isDigit = true) : Plain c := by
  obtain ⟨h1, h2⟩ := isDigit_toNat h
  exact plain_of_toNat (by omega) (by omega) (by omega)

theorem plain_of_toLower {c d : Char} (h : c.toLower = d) (hd : Plain d) : Plain c := by
  unfold Char.toLower at h
  split at h
  · rename_i hu
    have hc : 65 ≤ c.toNat ∧ c.toNat ≤ 90 := by
      simp only [ge_iff_le, UInt32.le_iff_toNat_le] at hu
      exact hu
    exact plain_of_toNat (by omega) (by omega) (by omega)
  · exact h ▸ hd

theorem plain_of_lower {cs word : List Char} (h : cs.map Char.toLower = word)
    (hw : ∀ c ∈ word, Plain c) : ∀ c ∈ cs, Plain c := by
  intro c hc
  exact plain_of_toLower rfl (hw _ (h ▸ List.mem_map_of_mem hc))

theorem plain_signOf {cs : List Char} (h : ∀ c ∈ (signOf cs).2, Plain c) : ∀ c ∈ cs, Plain c := by
  unfold signOf at h
  split at h
  · exact List.forall_mem_cons.2 ⟨by decide, h⟩
  · exact List.forall_mem_cons.2 ⟨by decide, h⟩
  · exact h

theorem plain_exponent {cs : List Char} {e : Int} (h : exponent? cs = some e) :
    ∀ c ∈ cs, Plain c := by
  cases cs with
  | nil => nofun
  | cons c cs =>
    rw [exponent?] at h
    split at h
    · rename_i hc
      refine List.forall_mem_cons.2 ⟨?_, plain_signOf fun d hd => ?_⟩
      · rcases hc.1 with rfl | rfl <;> decide
      · exact plain_of_isDigit (List.all_eq_true.1 hc.2.2 d hd)
    · cases h

theorem plain_takeWhile {cs : List Char} (h : ∀ c ∈ cs.dropWhile Char.isDigit, Plain c) :
    ∀ c ∈ cs, Plain c := by
  intro c hc
  rw [← List.takeWhile_append_dropWhile (p := Char.isDigit) (l := cs)] at hc
  rcases List.mem_append.1 hc with hc | hc
  · exact plain_of_isDigit (List.mem_takeWhile_imp hc)
  · exact h c hc

theorem plain_fractionOf {cs : List Char} (h : ∀ c ∈ (fractionOf cs).2, Plain c) :
    ∀ c ∈ cs, Plain c := by
  unfold fractionOf at h
  split at h
  · exact List.forall_mem_cons.2 ⟨by decide, plain_takeWhile h⟩
  · exact h

theorem plain_number {negative : Bool} {cs : List Char} {l : Literal}
    (h : number? negative cs = some l) : ∀ c ∈ cs, Plain c := by
  simp only [number?] at h
  split at h
  · cases h
  · obtain ⟨e, he, -⟩ := Option.map_eq_some_iff.1 h
    exact plain_takeWhile (plain_fractionOf (plain_exponent he))

/-- Said of the list, so that deciding it goes along the list. -/
theorem plain_of_all {word : List Char} (h : word.all (fun c => decide (Plain c)) = true) :
    ∀ c ∈ word, Plain c := fun c hc => of_decide_eq_true (List.all_eq_true.1 h c hc)

theorem plain_literal {cs : List Char} {l : Literal} (h : literal? cs = some l) :
    ∀ c ∈ cs, Plain c := by
  refine plain_signOf ?_
  simp only [literal?] at h
  split at h
  · rename_i hw
    have hall : infinityWords.all (fun w => w.all fun c => decide (Plain c)) = true := by decide
    exact plain_of_lower rfl (plain_of_all (List.all_eq_true.1 hall _ hw))
  · split at h
    · rename_i hw
      exact plain_of_lower hw (plain_of_all (by decide))
    · exact plain_number h

/-! ### Python reads what Rust reads -/

theorem dropUnderscores_plain {cs : List Char} (h : ∀ c ∈ cs, Plain c) {prev : Char}
    (hp : prev ≠ '_') : dropUnderscores prev cs = some cs := by
  induction cs generalizing prev with
  | nil => rw [dropUnderscores, if_neg hp]
  | cons c cs ih =>
    obtain ⟨hc, hcs⟩ := List.forall_mem_cons.1 h
    rw [dropUnderscores, if_neg hc.2.1, if_neg (fun hu => hp hu.1), ih hcs hc.2.1]
    rfl

theorem strip_plain {cs : List Char} (h : ∀ c ∈ cs, Plain c) :
    (cs.dropWhile isAsciiSpace).rdropWhile isAsciiSpace = cs := by
  have hdrop : cs.dropWhile isAsciiSpace = cs := by
    rw [List.dropWhile_eq_self_iff]
    intro hl
    rw [(h _ (List.getElem_mem hl)).2.2]
    decide
  rw [hdrop, List.rdropWhile_eq_self_iff]
  intro hl
  rw [(h _ (List.getLast_mem hl)).2.2]
  decide

theorem pyFloat_of_f64FromStr (t : CharTable) {s : String} {l : Literal}
    (h : f64FromStr s = some l) : pyFloat t s = some l := by
  have hplain := plain_literal h
  have hmap : s.toList.map t.toAscii = s.toList := by
    refine (List.map_congr_left fun c hc => ?_).trans (List.map_id _)
    rw [CharTable.toAscii, if_pos (hplain c hc).1]
    rfl
  rw [pyFloat, hmap, dropUnderscores_plain hplain (by decide), Option.bind_some,
    strip_plain hplain]
  exact h

end Myco.Lib
