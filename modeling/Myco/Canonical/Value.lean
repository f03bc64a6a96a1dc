import Myco.Lib.OrdMap
import Myco.Lib.Bytes

/-!
# Typed values and their tags

`Value` is the Rust `Value` of `kernel/shared/src/canonical_bytes.rs`. A `BTreeMap<String, Value>`
is the list of its entries in iteration order; `Value.WF` says that every map of a value is in
that order (keys by their UTF-8 bytes, no key twice), as a `BTreeMap` always is.
`Value.induction` is induction over values with the items of an array and the entries of a map as
induction hypotheses.
-/

namespace Myco.Canonical

open Myco.Lib

/-- Thirty-two raw bytes, Rust's `[u8; 32]`. -/
structure Hash32 where
  bytes : Bytes
  length_eq : bytes.length = 32
deriving DecidableEq

theorem Hash32.ext {a b : Hash32} (h : a.bytes = b.bytes) : a = b := by
  cases a; cases b; cases h; rfl

/-- The hash that is one byte over and over. -/
def Hash32.replicate (x : UInt8) : Hash32 := ⟨List.replicate 32 x, List.length_replicate⟩

inductive Value where
  | null
  | bool (b : Bool)
  | int (i : Int64)
  | uint (u : UInt64)
  | string (s : String)
  | bytes (b : Bytes)
  | array (items : List Value)
  | map (entries : List (String × Value))
  | timestamp (ts : Int64)
  | hash (h : Hash32)

/-! ### Tags -/

inductive Tag where
  | null
  | bool
  | int
  | uint
  | string
  | bytes
  | array
  | map
  | timestamp
  | hash
deriving DecidableEq

/-- The `TAG_*` constants. -/
def Tag.byte : Tag → UInt8
  | .null => 0x00
  | .bool => 0x01
  | .int => 0x10
  | .uint => 0x11
  | .string => 0x20
  | .bytes => 0x21
  | .array => 0x30
  | .map => 0x31
  | .timestamp => 0x40
  | .hash => 0x41

/-- The tag a byte stands for, if any: the decoders' dispatch on the first byte. -/
def Tag.ofByte? (b : UInt8) : Option Tag :=
  [Tag.null, .bool, .int, .uint, .string, .bytes, .array, .map, .timestamp, .hash].find?
    (fun t => t.byte == b)

@[simp] theorem Tag.ofByte?_byte {t : Tag} : Tag.ofByte? t.byte = some t := by
  cases t <;> rfl

theorem Tag.byte_of_ofByte? {b : UInt8} {t : Tag} (h : Tag.ofByte? b = some t) : b = t.byte := by
  have := List.find?_some h
  exact (beq_iff_eq.1 this).symm

theorem Tag.byte_injective {s t : Tag} (h : s.byte = t.byte) : s = t := by
  have := congrArg Tag.ofByte? h
  simpa using this

/-! ### Errors -/

/-- The texts of `CanonicalBytesError::InvalidInput`, one constructor a message. -/
inductive InvalidInput where
  /-- `varint truncated` -/
  | varintTruncated
  /-- `varint too long (>10 bytes)` -/
  | varintTooLong
  /-- `trailing bytes after decode: consumed {}/{}` -/
  | trailing (consumed length : Nat)
  /-- `decode: input truncated` -/
  | truncated
  /-- `decode: {} payload truncated`, the blank filled with the tag's name -/
  | payloadTruncated (tag : Tag)
  /-- `decode: invalid bool byte {}` -/
  | boolByte (b : UInt8)
  /-- `decode: invalid utf-8: {}` -/
  | utf8 (raw : Bytes)
  /-- `decode: map key is not String: {}` -/
  | mapKey (other : Value)
  /-- `decode: map keys not in strict canonical order` -/
  | mapOrder
  /-- `decode: unknown tag {}` -/
  | unknownTag (b : UInt8)
  /-- `map_get_{}({key}): not a {}: {other}`, the blanks filled with the kind asked for -/
  | mapGetKind (kind : Tag) (key : String) (other : Value)
  /-- `map_get_{}({key}): missing key` -/
  | mapGetMissing (kind : Tag) (key : String)

/-- `ValueTooLarge` carries `{array|map} count {} exceeds remaining input {} bytes`. -/
inductive CanonicalBytesError where
  | invalidInput (what : InvalidInput)
  | valueTooLarge (container : Tag) (count remaining : Nat)

/-! ### Maps in key order -/

/-- The `BTreeMap` order on `String` keys: byte by byte on their UTF-8. -/
abbrev KeySorted {α : Type} (es : List (String × α)) : Prop := OrdMap.Sorted utf8 es

mutual

/-- Every map is in `BTreeMap` order. -/
def Value.WF : Value → Prop
  | .array items => WFItems items
  | .map entries => KeySorted entries ∧ WFEntries entries
  | _ => True

def WFItems : List Value → Prop
  | [] => True
  | v :: vs => v.WF ∧ WFItems vs

def WFEntries : List (String × Value) → Prop
  | [] => True
  | (_, v) :: es => v.WF ∧ WFEntries es

end

theorem wfItems_iff {vs : List Value} : WFItems vs ↔ ∀ v ∈ vs, v.WF := by
  induction vs with
  | nil => simp [WFItems]
  | cons v vs ih => simp [WFItems, ih]

theorem wfEntries_iff {es : List (String × Value)} : WFEntries es ↔ ∀ e ∈ es, e.2.WF := by
  induction es with
  | nil => simp [WFEntries]
  | cons e es ih => simp [WFEntries, ih]

/-- Induction over a value, through the items of its arrays and the entries of its maps. -/
theorem Value.induction {P : Value → Prop} (null : P .null) (bool : ∀ b, P (.bool b))
    (int : ∀ i, P (.int i)) (uint : ∀ u, P (.uint u)) (string : ∀ s, P (.string s))
    (bytes : ∀ b, P (.bytes b)) (array : ∀ items, (∀ v ∈ items, P v) → P (.array items))
    (map : ∀ entries, (∀ e ∈ entries, P e.2) → P (.map entries))
    (timestamp : ∀ ts, P (.timestamp ts)) (hash : ∀ h, P (.hash h)) (v : Value) : P v :=
  Value.rec (motive_1 := P) (motive_2 := fun vs => ∀ v ∈ vs, P v)
    (motive_3 := fun es => ∀ e ∈ es, P e.2) (motive_4 := fun e => P e.2)
    null bool int uint string bytes array map timestamp hash
    (fun v hv => by cases hv) (fun _ _ h1 h2 => List.forall_mem_cons.2 ⟨h1, h2⟩)
    (fun e he => by cases he) (fun _ _ h1 h2 => List.forall_mem_cons.2 ⟨h1, h2⟩)
    (fun _ _ h => h) v

end Myco.Canonical
