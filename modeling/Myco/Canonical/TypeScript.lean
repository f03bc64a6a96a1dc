import Myco.Canonical.Meaning

/-!
# The TypeScript encoder

`canonical_bytes.ts` of the operator package. Numbers are `bigint`s, strings are UTF-16 code units
and a `Map` lists its entries in insertion order, no key twice. Strings go through `TextEncoder`,
which replaces a surrogate without its partner; the entries of a map are sorted with the
comparator `compareBytes`, a difference of bytes or of lengths.
-/

namespace Myco.Canonical

open Myco.Lib

namespace Ts

abbrev Str := List UInt16

inductive Value where
  | null
  | bool (value : Bool)
  | int (value : Int)
  | uint (value : Int)
  | string (value : Str)
  | bytes (value : Bytes)
  | array (value : List Value)
  | map (value : List (Str × Value))
  | timestamp (value : Int)
  | hash (value : Bytes)

/-- The messages of `CanonicalBytesError`. -/
inductive Error where
  /-- `varint cannot encode negative: {}` -/
  | varintNegative (n : Int)
  /-- `i64 out of range: {}` -/
  | i64Range (n : Int)
  /-- `u64 out of range: {}` -/
  | u64Range (n : Int)
  /-- `hash must be exactly 32 bytes; got {}` -/
  | hashLength (n : Nat)

def writeVarint (n : Int) : Except Error Bytes :=
  if n < 0 then .error (.varintNegative n) else .ok (emitLoop n.toNat n.toNat)

/-- The loop that pushes the bytes of `v` from the eighth down to the first. -/
def pushBytes (v : Nat) : Bytes :=
  [7, 6, 5, 4, 3, 2, 1, 0].map (fun i => UInt8.ofNat ((v >>> (i * 8)) &&& 0xff))

def writeI64BE (n : Int) : Except Error Bytes :=
  if n < -2 ^ 63 ∨ n > 2 ^ 63 - 1 then .error (.i64Range n)
  else .ok (pushBytes (if n < 0 then 2 ^ 64 + n else n).toNat)

def writeU64BE (n : Int) : Except Error Bytes :=
  if n < 0 ∨ n > 2 ^ 64 - 1 then .error (.u64Range n) else .ok (pushBytes n.toNat)

/-- `new TextEncoder().encode(s)`. -/
def utf8Encode (s : Str) : Bytes := utf8 (usvString s)

/-- The first difference of two bytes at one index, else the difference of the lengths. -/
def compareBytes : Bytes → Bytes → Int
  | x :: xs, y :: ys =>
    if (x.toNat : Int) - y.toNat ≠ 0 then (x.toNat : Int) - y.toNat else compareBytes xs ys
  | xs, ys => (xs.length : Int) - ys.length

/-- `keyed.sort((a, b) => compareBytes(a.keyCanonical, b.keyCanonical))`, a stable sort. -/
def sortKeyed {α : Type} (keyed : List (Bytes × α)) : List (Bytes × α) :=
  keyed.insertionSort (fun a b => compareBytes a.1 b.1 ≤ 0)

def encodeString (s : Str) : Except Error Bytes := do
  let len ← writeVarint (utf8Encode s).length
  .ok (Tag.string.byte :: (len ++ utf8Encode s))

mutual

def encodeInto : Value → Except Error Bytes
  | .null => .ok [Tag.null.byte]
  | .bool b => .ok [Tag.bool.byte, if b then 0x01 else 0x00]
  | .int n => do
    let raw ← writeI64BE n
    .ok (Tag.int.byte :: raw)
  | .uint n => do
    let raw ← writeU64BE n
    .ok (Tag.uint.byte :: raw)
  | .string s => encodeString s
  | .bytes b => do
    let len ← writeVarint b.length
    .ok (Tag.bytes.byte :: (len ++ b))
  | .array items => do
    let len ← writeVarint items.length
    let body ← encodeItems items
    .ok (Tag.array.byte :: (len ++ body))
  | .map entries => do
    let len ← writeVarint entries.length
    let keyed ← encodeEntries entries
    let body ← concatKeyed (sortKeyed keyed)
    .ok (Tag.map.byte :: (len ++ body))
  | .timestamp n => do
    let raw ← writeI64BE n
    .ok (Tag.timestamp.byte :: raw)
  | .hash h => if h.length = 32 then .ok (Tag.hash.byte :: h) else .error (.hashLength h.length)

def encodeItems : List Value → Except Error Bytes
  | [] => .ok []
  | v :: vs => do
    let a ← encodeInto v
    let b ← encodeItems vs
    .ok (a ++ b)

/-- The encoded keys, each with the encoding of its value still to be asked for. -/
def encodeEntries : List (Str × Value) → Except Error (List (Bytes × Except Error Bytes))
  | [] => .ok []
  | (k, v) :: es => do
    let key ← encodeString k
    let rest ← encodeEntries es
    .ok ((key, encodeInto v) :: rest)

end

def encode (v : Value) : Except Error Bytes := encodeInto v

/-! ### Its meaning -/

mutual

def Value.denote : Value → Tree
  | .null => .null
  | .bool b => .bool b
  | .int n => .int n
  | .uint n => .uint n
  | .string s => .string (ofUnits s)
  | .bytes b => .bytes b
  | .array items => .array (denoteItems items)
  | .map entries => .map (denoteEntries entries)
  | .timestamp n => .timestamp n
  | .hash h => .hash h

def denoteItems : List Value → List Tree
  | [] => []
  | v :: vs => v.denote :: denoteItems vs

/-- Looking a name up in a `Map`. -/
def denoteEntries : List (Str × Value) → List CodePoint → Option Tree
  | [], _ => none
  | (k, v) :: es, p => if p = ofUnits k then some v.denote else denoteEntries es p

end

mutual

/-- No key of a `Map` stands twice. -/
def Value.Distinct : Value → Prop
  | .array items => DistinctItems items
  | .map entries => (entries.map Prod.fst).Nodup ∧ DistinctEntries entries
  | _ => True

def DistinctItems : List Value → Prop
  | [] => True
  | v :: vs => v.Distinct ∧ DistinctItems vs

def DistinctEntries : List (Str × Value) → Prop
  | [] => True
  | (_, v) :: es => v.Distinct ∧ DistinctEntries es

end

theorem denoteEntries_eq {es : List (Str × Value)} {p : List CodePoint} :
    denoteEntries es p = OrdMap.get p (es.map fun e => (ofUnits e.1, e.2.denote)) := by
  induction es with
  | nil => rfl
  | cons e es ih => rw [denoteEntries, ih, List.map_cons, OrdMap.get_cons]

theorem distinctItems_iff {vs : List Value} : DistinctItems vs ↔ ∀ v ∈ vs, v.Distinct := by
  induction vs with
  | nil => simp [DistinctItems]
  | cons v vs ih => simp [DistinctItems, ih]

theorem distinctEntries_iff {es : List (Str × Value)} :
    DistinctEntries es ↔ ∀ e ∈ es, e.2.Distinct := by
  induction es with
  | nil => simp [DistinctEntries]
  | cons e es ih => simp [DistinctEntries, ih]

/-! ### Numbers, strings and keys -/

theorem writeVarint_length {n : Nat} : writeVarint n = .ok (emit n) := by
  rw [writeVarint, if_neg (by omega), Int.toNat_natCast, emitLoop_eq (le_refl n)]

theorem pushBytes_eq {v : Nat} : pushBytes v = beBytes 8 v := by
  have h : ∀ n, UInt8.ofNat (n &&& 0xff) = UInt8.ofNat n := by
    intro n
    apply UInt8.toNat_inj.1
    rw [show (0xff : Nat) = 2 ^ 8 - 1 from rfl, Nat.and_two_pow_sub_one_eq_mod]
    simp only [UInt8.toNat_ofNat']
    omega
  simp [pushBytes, h, Nat.shiftRight_eq_div_pow, beBytes, Nat.div_div_eq_div_mul]

theorem compareBytes_le_zero_iff {a b : Bytes} : compareBytes a b ≤ 0 ↔ a ≤ b := by
  induction a generalizing b with
  | nil => simp [compareBytes, nil_le]
  | cons x xs ih =>
    cases b with
    | nil =>
      have : ¬ (x :: xs : Bytes) ≤ [] := not_le.2 (List.nil_lt_cons x xs)
      simp only [compareBytes, List.length_cons, List.length_nil, this, iff_false]
      omega
    | cons y ys =>
      have hlt : x < y ↔ x.toNat < y.toNat := UInt8.lt_iff_toNat_lt
      simp only [compareBytes, cons_le_cons_iff, hlt, ← UInt8.toNat_inj]
      split
      · rename_i hne
        have : ¬ x.toNat = y.toNat := by omega
        simp only [this, false_and, or_false]
        omega
      · rename_i heq
        have : x.toNat = y.toNat := by omega
        simp only [this, lt_irrefl, true_and, false_or, ih]

theorem sortKeyed_eq {α : Type} {keyed : List (Bytes × α)} :
    sortKeyed keyed = Canonical.sortKeyed keyed := by
  have h := List.map_insertionSort (fun a b : Bytes × α => compareBytes a.1 b.1 ≤ 0)
    (fun a b : Bytes × α => a.1 ≤ b.1) id keyed (fun _ _ _ _ => compareBytes_le_zero_iff)
  rw [List.map_id, List.map_id] at h
  exact h

end Ts

end Myco.Canonical
