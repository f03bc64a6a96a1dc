import Myco.Canonical.Grammar
import Myco.Lib.Loop

/-!
# The Rust encoder

`encode` of `kernel/shared/src/canonical_bytes.rs`. Each function returns the bytes its source
appends to the buffer. The entries of a map are sorted by their encoded keys before their values
are encoded, so `encodeEntries` pairs every encoded key with the encoding of its value still to
be asked for.

`Value.canonical` is the tree the encoder spells: shortest varints, entries in key order. Where
every length fits a `u64` the encoder returns exactly its bytes (`encode_eq`).
-/

namespace Myco.Canonical

open Myco.Lib

/-! ### The code -/

/-- The loop of `write_varint`, with the rounds still allowed; a `u64` needs at most ten bytes. -/
def writeVarintLoop : Nat → UInt64 → Bytes
  | 0, n => [n.toUInt8]
  | k + 1, n =>
    if n ≥ 0x80 then ((n.toUInt8 &&& 0x7f) ||| 0x80) :: writeVarintLoop k (n >>> 7)
    else [n.toUInt8]

def writeVarint (n : UInt64) : Bytes := writeVarintLoop 9 n

/-- `len as u64`. -/
def lenVarint (n : Nat) : Bytes := writeVarint (UInt64.ofNat n)

/-- `encode(&Value::String(s))`. -/
def encodeString (s : String) : Bytes :=
  Tag.string.byte :: (lenVarint (utf8 s).length ++ utf8 s)

/-- Appends keys and values in turn. -/
def concatKeyed {ε : Type} : List (Bytes × Except ε Bytes) → Except ε Bytes
  | [] => .ok []
  | (key, val) :: rest => do
    let v ← val
    let r ← concatKeyed rest
    .ok (key ++ (v ++ r))

/-- `keyed.sort_by(|a, b| a.0.cmp(&b.0))`, a stable sort. -/
def sortKeyed {α : Type} (keyed : List (Bytes × α)) : List (Bytes × α) :=
  keyed.insertionSort (fun a b => a.1 ≤ b.1)

mutual

def encodeInto : Value → Except CanonicalBytesError Bytes
  | .null => .ok [Tag.null.byte]
  | .bool b => .ok [Tag.bool.byte, if b then 0x01 else 0x00]
  | .int i => .ok (Tag.int.byte :: i64Be i)
  | .uint u => .ok (Tag.uint.byte :: u64Be u)
  | .string s => .ok (encodeString s)
  | .bytes b => .ok (Tag.bytes.byte :: (lenVarint b.length ++ b))
  | .array items => do
    let body ← encodeItems items
    .ok (Tag.array.byte :: (lenVarint items.length ++ body))
  | .map entries => do
    let body ← concatKeyed (sortKeyed (encodeEntries entries))
    .ok (Tag.map.byte :: (lenVarint entries.length ++ body))
  | .timestamp ts => .ok (Tag.timestamp.byte :: i64Be ts)
  | .hash h => .ok (Tag.hash.byte :: h.bytes)

def encodeItems : List Value → Except CanonicalBytesError Bytes
  | [] => .ok []
  | v :: vs => do
    let a ← encodeInto v
    let b ← encodeItems vs
    .ok (a ++ b)

def encodeEntries : List (String × Value) → List (Bytes × Except CanonicalBytesError Bytes)
  | [] => []
  | (k, v) :: es => (encodeString k, encodeInto v) :: encodeEntries es

end

def encode (v : Value) : Except CanonicalBytesError Bytes := encodeInto v

/-! ### The varint it writes -/

theorem writeVarintLoop_eq {k : Nat} {n : UInt64} (h : n.toNat < 128 ^ (k + 1)) :
    writeVarintLoop k n = emit n.toNat := by
  induction k generalizing n with
  | zero =>
    rw [emit_of_lt (by simpa using h)]
    rfl
  | succ k ih =>
    have hge : n ≥ 0x80 ↔ 128 ≤ n.toNat := UInt64.le_iff_toNat_le
    simp only [writeVarintLoop, hge]
    split
    · rename_i hn
      have hs : (n >>> 7).toNat = n.toNat / 128 := by
        rw [UInt64.toNat_shiftRight]
        simp [Nat.shiftRight_eq_div_pow]
      have hd : (n >>> 7).toNat < 128 ^ (k + 1) := by
        rw [hs, Nat.div_lt_iff_lt_mul (by decide), ← Nat.pow_succ]
        exact h
      rw [emit_of_ge hn, ih hd, hs]
      congr 1
      apply UInt8.toNat_inj.1
      have hand : (n.toUInt8 &&& 0x7f).toNat = n.toNat % 128 := by
        rw [toNat_and_0x7f, UInt64.toNat_toUInt8]
        omega
      rw [toNat_or_0x80 (by omega), hand, UInt8.toNat_ofNat']
      omega
    · rename_i hn
      rw [emit_of_lt (by omega)]
      rfl

theorem lenVarint_eq {n : Nat} (h : n < 2 ^ 64) : lenVarint n = emit n := by
  have hn : (UInt64.ofNat n).toNat = n := UInt64.toNat_ofNat_of_lt' h
  rw [lenVarint, writeVarint, writeVarintLoop_eq (by omega), hn]

/-! ### The tree it spells -/

/-- The key `k` with its length in shortest form. -/
def Key.ofString (k : String) : Key := ⟨Leb.ofNat (utf8 k).length, k⟩

def sortEntries (es : List (Key × Tlv)) : List (Key × Tlv) :=
  es.insertionSort (fun a b => keyBytes a.1 ≤ keyBytes b.1)

mutual

/-- The tree of a value with every length in shortest form and every map in key order. -/
def Value.canonical : Value → Tlv
  | .null => .null
  | .bool b => .bool b
  | .int i => .int i
  | .uint u => .uint u
  | .string s => .string (Leb.ofNat (utf8 s).length) s
  | .bytes b => .bytes (Leb.ofNat b.length) b
  | .array items => .array (Leb.ofNat items.length) (canonicalItems items)
  | .map entries => .map (Leb.ofNat entries.length) (sortEntries (canonicalEntries entries))
  | .timestamp ts => .timestamp ts
  | .hash h => .hash h

def canonicalItems : List Value → List Tlv
  | [] => []
  | v :: vs => v.canonical :: canonicalItems vs

def canonicalEntries : List (String × Value) → List (Key × Tlv)
  | [] => []
  | (k, v) :: es => (Key.ofString k, v.canonical) :: canonicalEntries es

end

theorem canonicalItems_eq {vs : List Value} : canonicalItems vs = vs.map Value.canonical := by
  induction vs with
  | nil => rfl
  | cons v vs ih => rw [canonicalItems, ih, List.map_cons]

theorem canonicalEntries_eq {es : List (String × Value)} :
    canonicalEntries es = es.map (fun e => (Key.ofString e.1, e.2.canonical)) := by
  induction es with
  | nil => rfl
  | cons e es ih => rw [canonicalEntries, ih, List.map_cons]

/-- The bytes of the canonical tree. -/
def Value.wire (v : Value) : Bytes := v.canonical.bytesOf

/-- A number a `u64` holds. -/
def FitsU64 (l : Leb) : Prop := l.value < 2 ^ 64

theorem keyBytes_ofString {k : String} (h : FitsU64 (Key.ofString k).len) :
    keyBytes (Key.ofString k) = encodeString k := by
  have h' : (utf8 k).length < 2 ^ 64 := by simpa [FitsU64, Key.ofString] using h
  rw [encodeString, lenVarint_eq h']
  rfl

theorem mem_sortEntries {es : List (Key × Tlv)} {e : Key × Tlv} :
    e ∈ sortEntries es ↔ e ∈ es :=
  (List.perm_insertionSort _ es).mem_iff

@[simp] theorem sortEntries_length {es : List (Key × Tlv)} :
    (sortEntries es).length = es.length :=
  (List.perm_insertionSort _ es).length_eq

theorem encodeItems_ok {vs : List Value} (h : ∀ v ∈ vs, encodeInto v = .ok v.wire) :
    encodeItems vs = .ok (bytesOfItems (canonicalItems vs)) := by
  induction vs with
  | nil => rfl
  | cons v vs ih =>
    rw [List.forall_mem_cons] at h
    rw [encodeItems, h.1, ih h.2]
    rfl

theorem concatKeyed_ok {ε : Type} {es : List (Key × Tlv)} :
    concatKeyed (ε := ε) (es.map (fun e => (keyBytes e.1, .ok e.2.bytesOf)))
      = .ok (bytesOfEntries es) := by
  induction es with
  | nil => rfl
  | cons e es ih => simp [concatKeyed, bytesOfEntries, ih]

theorem sortKeyed_map {α : Type} (f : Tlv → α) {es : List (Key × Tlv)} :
    sortKeyed (es.map (fun e => (keyBytes e.1, f e.2)))
      = (sortEntries es).map (fun e => (keyBytes e.1, f e.2)) :=
  (List.map_insertionSort (fun a b : Key × Tlv => keyBytes a.1 ≤ keyBytes b.1)
    (fun a b : Bytes × α => a.1 ≤ b.1) _ es (fun _ _ _ _ => Iff.rfl)).symm

theorem encodeEntries_ok {es : List (String × Value)}
    (hk : ∀ e ∈ es, keyBytes (Key.ofString e.1) = encodeString e.1)
    (h : ∀ e ∈ es, encodeInto e.2 = .ok e.2.wire) :
    encodeEntries es = (canonicalEntries es).map (fun e => (keyBytes e.1, .ok e.2.bytesOf)) := by
  induction es with
  | nil => rfl
  | cons e es ih =>
    rw [List.forall_mem_cons] at h hk
    rw [encodeEntries, h.1, ih hk.2 h.2, canonicalEntries, List.map_cons, hk.1]
    rfl

/-- The encoder never fails, and spells the canonical tree as long as every length fits a
`u64`. -/
theorem encode_eq {v : Value} (h : v.canonical.Every FitsU64) : encode v = .ok v.wire := by
  unfold encode
  induction v using Value.induction with
  | string s =>
    have h' : (utf8 s).length < 2 ^ 64 := by simpa [Value.canonical, Tlv.Every, FitsU64] using h
    rw [encodeInto, encodeString, lenVarint_eq h']
    rfl
  | bytes b =>
    have h' : b.length < 2 ^ 64 := by simpa [Value.canonical, Tlv.Every, FitsU64] using h
    rw [encodeInto, lenVarint_eq h']
    rfl
  | array items ih =>
    simp only [Value.canonical, Tlv.Every, everyItems_iff, canonicalItems_eq,
      List.forall_mem_map, FitsU64, Leb.value_ofNat] at h
    rw [encodeInto, encodeItems_ok fun v hv => ih v hv (h.2 v hv), lenVarint_eq h.1]
    rfl
  | map entries ih =>
    simp only [Value.canonical, Tlv.Every, everyEntries_iff, mem_sortEntries,
      canonicalEntries_eq, List.forall_mem_map] at h
    rw [encodeInto, encodeEntries_ok (fun e he => keyBytes_ofString (h.2 e he).1)
      fun e he => ih e he (h.2 e he).2, sortKeyed_map (fun t => Except.ok t.bytesOf),
      concatKeyed_ok,
      lenVarint_eq (by simpa [FitsU64] using h.1)]
    rfl
  | _ => rfl

end Myco.Canonical
