import Myco.Canonical.Decode
import Myco.Canonical.Python

/-!
# What a value means, whatever the language

`Tree` is a value with everything particular to a language taken out: numbers are integers, a text
is its code points, and a map is what looking a name up in it gives. The values of each language
have a meaning in it, and two decoders agree on an input when the values they return mean the
same.

A map of the input in which a name stands twice can be read by the first entry of a name or by the
last. `Tlv.keepFirst` and `Tlv.keepLast` are the two readings; Rust's `BTreeMap` gives the last,
Python's `map_get` the first.
-/

namespace Myco.Canonical

open Myco.Lib

inductive Tree where
  | null
  | bool (b : Bool)
  | int (i : Int)
  | uint (n : Int)
  | string (s : List CodePoint)
  | bytes (b : Bytes)
  | array (items : List Tree)
  | map (lookup : List CodePoint → Option Tree)
  | timestamp (ts : Int)
  | hash (h : Bytes)

/-! ### Rust values -/

mutual

def Value.denote : Value → Tree
  | .null => .null
  | .bool b => .bool b
  | .int i => .int i.toInt
  | .uint u => .uint u.toNat
  | .string s => .string (codePoints s)
  | .bytes b => .bytes b
  | .array items => .array (denoteItems items)
  | .map entries => .map (denoteEntries entries)
  | .timestamp ts => .timestamp ts.toInt
  | .hash h => .hash h.bytes

def denoteItems : List Value → List Tree
  | [] => []
  | v :: vs => v.denote :: denoteItems vs

/-- Looking a name up in a `BTreeMap`. -/
def denoteEntries : List (String × Value) → List CodePoint → Option Tree
  | [], _ => none
  | (k, v) :: es, p => if p = codePoints k then some v.denote else denoteEntries es p

end

theorem denoteEntries_codePoints {es : List (String × Value)} {k : String} :
    denoteEntries es (codePoints k) = (OrdMap.get k es).map Value.denote := by
  induction es with
  | nil => rfl
  | cons e es ih =>
    rw [denoteEntries, ih, OrdMap.get_cons]
    simp only [codePoints_inj]
    split <;> rfl

theorem denoteEntries_none {es : List (String × Value)} {p : List CodePoint}
    (h : ∀ k, p ≠ codePoints k) : denoteEntries es p = none := by
  induction es with
  | nil => rfl
  | cons e es ih => rw [denoteEntries, if_neg (h _), ih]

/-! ### Python values -/

mutual

def Py.Value.denote : Py.Value → Tree
  | .null => .null
  | .bool b => .bool b
  | .int n => .int n
  | .uint n => .uint n
  | .string s => .string s
  | .bytes b => .bytes b
  | .array items => .array (pyDenoteItems items)
  | .map entries => .map (pyDenoteEntries entries)
  | .timestamp n => .timestamp n
  | .hash h => .hash h

def pyDenoteItems : List Py.Value → List Tree
  | [] => []
  | v :: vs => v.denote :: pyDenoteItems vs

/-- Looking a name up with `map_get`. -/
def pyDenoteEntries : List (Py.Str × Py.Value) → List CodePoint → Option Tree
  | [], _ => none
  | (k, v) :: es, p => if p = k then some v.denote else pyDenoteEntries es p

end

/-! ### The two readings of a spelled tree -/

mutual

/-- The meaning of the spelled tree when the first entry of a name counts. -/
def Tlv.keepFirst : Tlv → Tree
  | .null => .null
  | .bool b => .bool b
  | .int i => .int i.toInt
  | .uint u => .uint u.toNat
  | .string _ s => .string (codePoints s)
  | .bytes _ b => .bytes b
  | .array _ items => .array (firstItems items)
  | .map _ entries => .map (firstEntry entries)
  | .timestamp ts => .timestamp ts.toInt
  | .hash h => .hash h.bytes

def firstItems : List Tlv → List Tree
  | [] => []
  | t :: ts => t.keepFirst :: firstItems ts

def firstEntry : List (Key × Tlv) → List CodePoint → Option Tree
  | [], _ => none
  | (k, t) :: es, p => if p = codePoints k.text then some t.keepFirst else firstEntry es p

end

mutual

/-- The meaning of the spelled tree when the last entry of a name counts. -/
def Tlv.keepLast : Tlv → Tree
  | .null => .null
  | .bool b => .bool b
  | .int i => .int i.toInt
  | .uint u => .uint u.toNat
  | .string _ s => .string (codePoints s)
  | .bytes _ b => .bytes b
  | .array _ items => .array (lastItems items)
  | .map _ entries => .map (lastEntry entries)
  | .timestamp ts => .timestamp ts.toInt
  | .hash h => .hash h.bytes

def lastItems : List Tlv → List Tree
  | [] => []
  | t :: ts => t.keepLast :: lastItems ts

def lastEntry : List (Key × Tlv) → List CodePoint → Option Tree
  | [], _ => none
  | (k, t) :: es, p =>
    (lastEntry es p).or (if p = codePoints k.text then some t.keepLast else none)

end

/-- `map_get` sees the first entry of a name. -/
theorem Tlv.denote_pyValue {t : Tlv} : t.pyValue.denote = t.keepFirst := by
  induction t using Tlv.induction with
  | array n items ih =>
    rw [pyValue, Py.Value.denote, keepFirst]
    congr 1
    induction items with
    | nil => rfl
    | cons t ts ihts =>
      rw [List.forall_mem_cons] at ih
      rw [pyValueItems, pyDenoteItems, firstItems, ih.1, ihts ih.2]
  | map n entries ih =>
    rw [pyValue, Py.Value.denote, keepFirst]
    congr 1
    induction entries with
    | nil => rfl
    | cons e es ihes =>
      rw [List.forall_mem_cons] at ih
      funext p
      rw [pyValueEntries, pyDenoteEntries, firstEntry, ih.1, ihes ih.2]
  | _ => rfl

/-- Looking a name up in a map built by insertions sees the last entry of the name. -/
theorem denoteEntries_ofList {es : List (Key × Tlv)}
    (ih : ∀ e ∈ es, e.2.value.denote = e.2.keepLast) {p : List CodePoint} :
    denoteEntries (OrdMap.ofList utf8 (valueEntries es)) p = lastEntry es p := by
  by_cases hp : ∃ k, p = codePoints k
  · obtain ⟨k, rfl⟩ := hp
    rw [denoteEntries_codePoints, OrdMap.get_ofList utf8_injective]
    induction es with
    | nil => rfl
    | cons e es ihes =>
      rw [List.forall_mem_cons] at ih
      rw [valueEntries, List.reverse_cons, OrdMap.get_append, Option.map_or, ihes ih.2, lastEntry,
        OrdMap.get_cons]
      simp only [codePoints_inj]
      congr 1
      split
      · rw [Option.map_some, ih.1]
      · rfl
  · have hne : ∀ k, p ≠ codePoints k := fun k h => hp ⟨k, h⟩
    rw [denoteEntries_none hne]
    clear ih
    induction es with
    | nil => rfl
    | cons e es ihes => rw [lastEntry, ← ihes, if_neg (hne _)]; rfl

theorem Tlv.denote_value {t : Tlv} : t.value.denote = t.keepLast := by
  induction t using Tlv.induction with
  | array n items ih =>
    rw [value, Value.denote, keepLast]
    congr 1
    induction items with
    | nil => rfl
    | cons t ts ihts =>
      rw [List.forall_mem_cons] at ih
      rw [valueItems, denoteItems, lastItems, ih.1, ihts ih.2]
  | map n entries ih =>
    rw [value, Value.denote, keepLast]
    congr 1
    funext p
    exact denoteEntries_ofList ih
  | _ => rfl

end Myco.Canonical
