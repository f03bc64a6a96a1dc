import Myco.Canonical.Cursor
import Myco.Canonical.Encode
import Myco.Lib.Text

/-!
# The Python encoder and decoder

`canonical_bytes.py` of the governance kernel. Integers are unbounded, a `str` is a sequence of
code points that may hold surrogates, and a `Map` is a tuple of pairs in which a name may stand
twice; `mapGet` takes the first. `read_varint` has the ten-byte limit of the Rust function and
none of its truncation, and no count is checked against the input.
-/

namespace Myco.Canonical

open Myco.Lib

namespace Py

abbrev Str := List CodePoint

inductive Value where
  | null
  | bool (value : Bool)
  | int (value : Int)
  | uint (value : Int)
  | string (value : Str)
  | bytes (value : Bytes)
  | array (value : List Value)
  | map (value : List (Str × Value))
  | timestamp (value : Int)
  | hash (value : Bytes)

/-- The messages of `CanonicalBytesError`, and the two exceptions of another kind: a `str` that
has no UTF-8 and a recursion past the interpreter's limit. -/
inductive Error where
  /-- `varint cannot encode negative: {}` -/
  | varintNegative (n : Int)
  /-- `i64 out of range: {}` -/
  | i64Range (n : Int)
  /-- `u64 out of range: {}` -/
  | u64Range (n : Int)
  /-- `timestamp out of i64 range: {}` -/
  | timestampRange (n : Int)
  /-- `hash must be exactly 32 bytes; got {}` -/
  | hashLength (n : Nat)
  /-- `varint truncated` -/
  | varintTruncated
  /-- `varint too long (>10 bytes)` -/
  | varintTooLong
  /-- `trailing bytes after decode: consumed {}/{}` -/
  | trailing (consumed length : Nat)
  /-- `decode: input truncated` -/
  | truncated
  /-- `decode: {} payload truncated` -/
  | payloadTruncated (tag : Tag)
  /-- `decode: invalid bool byte {}` -/
  | boolByte (b : UInt8)
  /-- `decode: invalid utf-8: {}` -/
  | utf8 (raw : Bytes)
  /-- `decode: map key is not String: {}` -/
  | mapKey (other : Value)
  /-- `decode: map keys not in strict canonical order` -/
  | mapOrder
  /-- `decode: unknown tag {}` -/
  | unknownTag (b : UInt8)
  /-- `UnicodeEncodeError` -/
  | unicodeEncode
  /-- `RecursionError` -/
  | recursion

/-! ### Encoding -/

def writeVarint (n : Int) : Except Error Bytes :=
  if n < 0 then .error (.varintNegative n) else .ok (emitLoop n.toNat n.toNat)

/-- `struct.pack(">q", n)`. -/
def packQ (n : Int) : Bytes := beBytes 8 (n % 2 ^ 64).toNat

/-- `n` is in the range of an `i64`. -/
def inI64 (n : Int) : Prop := -2 ^ 63 ≤ n ∧ n ≤ 2 ^ 63 - 1

instance (n : Int) : Decidable (inI64 n) := inferInstanceAs (Decidable (_ ∧ _))

/-- `n` is in the range of a `u64`. -/
def inU64 (n : Int) : Prop := 0 ≤ n ∧ n ≤ 2 ^ 64 - 1

instance (n : Int) : Decidable (inU64 n) := inferInstanceAs (Decidable (_ ∧ _))

/-- `s.encode("utf-8")`. -/
def encodeUtf8 (s : Str) : Except Error Bytes :=
  match scalars? s with
  | none => .error .unicodeEncode
  | some text => .ok (Lib.utf8 text)

def encodeString (s : Str) : Except Error Bytes := do
  let utf8 ← encodeUtf8 s
  let len ← writeVarint utf8.length
  .ok (Tag.string.byte :: (len ++ utf8))

mutual

def encodeInto : Value → Except Error Bytes
  | .null => .ok [Tag.null.byte]
  | .bool b => .ok [Tag.bool.byte, if b then 0x01 else 0x00]
  | .int n => if inI64 n then .ok (Tag.int.byte :: packQ n) else .error (.i64Range n)
  | .uint n => if inU64 n then .ok (Tag.uint.byte :: packQ n) else .error (.u64Range n)
  | .string s => encodeString s
  | .bytes b => do
    let len ← writeVarint b.length
    .ok (Tag.bytes.byte :: (len ++ b))
  | .array items => do
    let len ← writeVarint items.length
    let body ← encodeItems items
    .ok (Tag.array.byte :: (len ++ body))
  | .map entries => do
    let len ← writeVarint entries.length
    let keyed ← encodeEntries entries
    let body ← concatKeyed (sortKeyed keyed)
    .ok (Tag.map.byte :: (len ++ body))
  | .timestamp n =>
    if inI64 n then .ok (Tag.timestamp.byte :: packQ n) else .error (.timestampRange n)
  | .hash h => if h.length = 32 then .ok (Tag.hash.byte :: h) else .error (.hashLength h.length)

def encodeItems : List Value → Except Error Bytes
  | [] => .ok []
  | v :: vs => do
    let a ← encodeInto v
    let b ← encodeItems vs
    .ok (a ++ b)

/-- The encoded keys, each with the encoding of its value still to be asked for. -/
def encodeEntries : List (Str × Value) → Except Error (List (Bytes × Except Error Bytes))
  | [] => .ok []
  | (k, v) :: es => do
    let key ← encodeString k
    let rest ← encodeEntries es
    .ok ((key, encodeInto v) :: rest)

end

def encode (v : Value) : Except Error Bytes := encodeInto v

/-! ### Decoding -/

/-- The loop of `read_varint`, with the rounds it has left. -/
def readVarintLoop (buf : Bytes) : Nat → Nat → Nat → Nat → Except Error (Nat × Nat)
  | 0, _, _, _ => .error .varintTooLong
  | k + 1, cur, result, shift =>
    match buf[cur]? with
    | none => .error .varintTruncated
    | some byte =>
      let result := result ||| (byte.toNat &&& 0x7f) <<< shift
      if byte.toNat &&& 0x80 = 0 then .ok (result, cur + 1)
      else readVarintLoop buf k (cur + 1) result (shift + 7)

def readVarint (buf : Bytes) (offset : Nat) : Except Error (Nat × Nat) :=
  readVarintLoop buf 10 offset 0 0

/-- `struct.unpack(">q", raw)`. -/
def unpackQ (raw : Bytes) : Int :=
  if beNat raw < 2 ^ 63 then beNat raw else beNat raw - 2 ^ 64

/-- `raw.decode("utf-8")`. -/
def stringOfUtf8 (raw : Bytes) : Except Error Value :=
  match utf8? raw with
  | none => .error (.utf8 raw)
  | some text => .ok (.string (codePoints text))

/-- The text of a map key. -/
def keyString : Value → Except Error Str
  | .string s => .ok s
  | other => .error (.mapKey other)

/-- `entries.append((key_value.value, val))`. -/
def appendEntry (entries : List (Str × Value)) (key : Str) (val : Value) : List (Str × Value) :=
  entries ++ [(key, val)]

def decodeArray (dec : Nat → Except Error (Value × Nat)) (buf : Bytes) (cursor : Nat) :
    Except Error (Value × Nat) := do
  let (count, cursor) ← readVarint buf cursor
  let (items, cursor) ← iterM (pushItem dec) count ([], cursor)
  .ok (.array items, cursor)

def decodeMap (dec : Nat → Except Error (Value × Nat)) (buf : Bytes) (cursor : Nat) :
    Except Error (Value × Nat) := do
  let (count, cursor) ← readVarint buf cursor
  let (entries, _, cursor) ←
    iterM (putEntry dec buf keyString .mapOrder appendEntry) count ([], none, cursor)
  .ok (.map entries, cursor)

/-- The arms of `_decode_into`, with the decoder that they recurse to. -/
def decodeArm (dec : Nat → Except Error (Value × Nat)) (buf : Bytes) (tag : Tag) (cursor : Nat) :
    Except Error (Value × Nat) :=
  let short := Error.payloadTruncated tag
  let add := fun cursor length : Nat => Except.ok (cursor + length)
  match tag with
  | .null => .ok (.null, cursor)
  | .bool => takeBool buf short .boolByte .bool cursor
  | .int => takeTo buf short (fun raw => .ok (.int (unpackQ raw))) cursor (cursor + 8)
  | .uint => takeTo buf short (fun raw => .ok (.uint (beNat raw))) cursor (cursor + 8)
  | .string => takeSized buf (readVarint buf) add short stringOfUtf8 cursor
  | .bytes => takeSized buf (readVarint buf) add short (fun raw => .ok (.bytes raw)) cursor
  | .array => decodeArray dec buf cursor
  | .map => decodeMap dec buf cursor
  | .timestamp => takeTo buf short (fun raw => .ok (.timestamp (unpackQ raw))) cursor (cursor + 8)
  | .hash => takeTo buf short (fun raw => .ok (.hash raw)) cursor (cursor + 32)

/-- `_decode_into`, with the recursion left. -/
def decodeInto (buf : Bytes) : Nat → Nat → Except Error (Value × Nat)
  | 0, _ => .error .recursion
  | frames + 1, offset =>
    onTag buf .truncated .unknownTag (decodeArm (decodeInto buf frames) buf) offset

def decode (buf : Bytes) : Except Error Value := do
  let (value, cursor) ← decodeInto buf (buf.length + 1) 0
  if cursor ≠ buf.length then .error (.trailing cursor buf.length) else .ok value

/-- `map_get` on the pairs of a `Map`: the first one with the name. -/
def mapGet (entries : List (Str × Value)) (key : Str) : Option Value := OrdMap.get key entries

/-! ### The varint it reads -/

/-- How `read_varint` reads a varint: ten bytes at most, every bit kept. -/
def varint (l : Leb) : Option Nat := if l.bytes.length ≤ 10 then some l.value else none

theorem readVarintLoop_eq {buf : Bytes} {k i s acc : Nat} (hacc : acc < 2 ^ s) :
    (readVarintLoop buf k i acc s).toOption = (readLeb buf k i).map
      (fun l => (acc + 2 ^ s * lebValue l, i + l.length)) := by
  induction k generalizing i acc s with
  | zero => rfl
  | succ k ih =>
    simp only [readVarintLoop, readLeb]
    cases hb : buf[i]? with
    | none => rfl
    | some x =>
      have hlt : x < 0x80 ↔ x.toNat < 128 := UInt8.lt_iff_toNat_lt
      have hand : x.toNat &&& 0x7f = x.toNat % 128 := Nat.and_two_pow_sub_one_eq_mod _ 7
      simp only [and_0x80_eq_zero_iff x.toNat_lt, hlt, hand, or_shiftLeft hacc]
      split
      · simp [Except.toOption, lebValue]
      · have hacc' : acc + 2 ^ s * (x.toNat % 128) < 2 ^ (s + 7) := by
          rw [Nat.pow_add]
          have : 2 ^ s * (x.toNat % 128) ≤ 2 ^ s * 127 := Nat.mul_le_mul_left _ (by omega)
          omega
        rw [ih hacc', Option.map_map]
        congr 1
        funext l
        simp only [Function.comp_apply, lebValue, List.length_cons, Prod.mk.injEq]
        refine ⟨?_, by omega⟩
        rw [Nat.pow_add]
        ring

theorem readVarint_reads {buf : Bytes} : ReadsVarint varint buf (readVarint buf) := by
  intro i n j
  have h := @readVarintLoop_eq buf 10 i 0 0 (by decide)
  have hok : readVarint buf i = .ok (n, j) ↔ (readVarint buf i).toOption = some (n, j) := by
    cases readVarint buf i <;> simp [Except.toOption]
  rw [hok, readVarint, h, Option.map_eq_some_iff]
  simp only [Nat.pow_zero, Nat.one_mul, Nat.zero_add, Prod.mk.injEq]
  constructor
  · rintro ⟨s, hs, rfl, rfl⟩
    obtain ⟨h1, h2, h3⟩ := readLeb_sound hs
    exact ⟨⟨s, h2⟩, h1, if_pos h3, rfl⟩
  · rintro ⟨l, h1, h2, rfl⟩
    unfold varint at h2
    split at h2
    · rename_i h3
      exact ⟨l.bytes, readLeb_complete h1 l.isLeb h3, Option.some.inj h2, rfl⟩
    · cases h2

/-! ### The value of a tree -/

end Py

mutual

/-- The Python value a tree stands for: a map keeps its entries as they stand. -/
def Tlv.pyValue : Tlv → Py.Value
  | .null => .null
  | .bool b => .bool b
  | .int i => .int i.toInt
  | .uint u => .uint u.toNat
  | .string _ s => .string (codePoints s)
  | .bytes _ b => .bytes b
  | .array _ items => .array (pyValueItems items)
  | .map _ entries => .map (pyValueEntries entries)
  | .timestamp ts => .timestamp ts.toInt
  | .hash h => .hash h.bytes

def pyValueItems : List Tlv → List Py.Value
  | [] => []
  | t :: ts => t.pyValue :: pyValueItems ts

def pyValueEntries : List (Key × Tlv) → List (Py.Str × Py.Value)
  | [] => []
  | (k, t) :: es => (codePoints k.text, t.pyValue) :: pyValueEntries es

end

theorem pyValueItems_eq {ts : List Tlv} : pyValueItems ts = ts.map Tlv.pyValue := by
  induction ts with
  | nil => rfl
  | cons t ts ih => rw [pyValueItems, ih, List.map_cons]

namespace Py

/-! ### What each arm accepts -/

theorem unpackQ_eq {raw : Bytes} (h : raw.length = 8) : unpackQ raw = (i64OfBe raw).toInt := by
  rw [unpackQ, i64OfBe, toInt_toInt64, toNat_u64OfBe h]

theorem stringOfUtf8_iff {raw : Bytes} {v : Value} :
    stringOfUtf8 raw = .ok v ↔ ∃ s, raw = utf8 s ∧ v = .string (codePoints s) := by
  unfold stringOfUtf8
  constructor
  · intro h
    split at h
    · cases h
    · rename_i s hs
      cases h
      exact ⟨s, (utf8_of_utf8? hs).symm, rfl⟩
  · rintro ⟨s, rfl, rfl⟩
    rw [utf8?_utf8]

theorem keyString_iff {t : Tlv} {k : Str} :
    keyString t.pyValue = .ok k ↔ ∃ l s, t = .string l s ∧ k = codePoints s := by
  constructor
  · intro h
    cases t <;> cases h
    exact ⟨_, _, rfl, rfl⟩
  · rintro ⟨l, s, rfl, rfl⟩
    rfl

theorem foldl_appendEntry {es : List (Key × Tlv)} :
    es.foldl (putTree Tlv.pyValue codePoints appendEntry) [] = pyValueEntries es := by
  suffices h : ∀ acc, es.foldl (putTree Tlv.pyValue codePoints appendEntry) acc
      = acc ++ pyValueEntries es by
    simpa using h []
  induction es with
  | nil => simp [pyValueEntries]
  | cons e es ih =>
    intro acc
    rw [List.foldl_cons, ih]
    simp [putTree, appendEntry, pyValueEntries]

section

variable {buf : Bytes} {dec : Nat → Except Error (Value × Nat)} {n : Nat}

theorem decodeArray_spec (hr : Reads varint Tlv.pyValue buf dec)
    (ha : Accepts varint Tlv.pyValue buf n dec) :
    ArmSpec varint Tlv.pyValue buf n .array (decodeArray dec buf) where
  reads i v j h := by
    obtain ⟨⟨count, c⟩, h1, h⟩ := bind_eq_ok.1 h
    obtain ⟨l, hl, hc, rfl⟩ := (readVarint_reads _ _ _).1 h1
    obtain ⟨⟨items, c'⟩, h2, h3⟩ := bind_eq_ok.1 h
    cases h3
    obtain ⟨ts, rfl, hat, hok, rfl, rfl⟩ := items_reads hr h2
    refine ⟨.array l ts, rfl, At.append_iff.2 ⟨hl, hat⟩, ⟨hc, okItems_iff.2 hok⟩, ?_, ?_⟩
    · rw [Tlv.pyValue, pyValueItems_eq]
    · simp [Tlv.payload, Tlv.bytesOf, Nat.add_assoc]
  accepts hb t i ht hi hat hok hn := by
    cases t <;> cases ht
    rename_i l ts
    obtain ⟨hl, hok⟩ := hok
    simp only [Tlv.payload, Tlv.bytesOf, List.tail_cons, List.length_append] at hat hn ⊢
    obtain ⟨h1, h2⟩ := At.append_iff.1 hat
    unfold decodeArray
    rw [(readVarint_reads _ _ _).2 ⟨l, h1, hl, rfl⟩, ok_bind]
    simp only
    rw [items_accepts ha hb h2 (okItems_iff.1 hok) (by omega), ok_bind, Tlv.pyValue,
      pyValueItems_eq, Nat.add_assoc]

theorem decodeMap_spec (hr : Reads varint Tlv.pyValue buf dec)
    (ha : Accepts varint Tlv.pyValue buf n dec) :
    ArmSpec varint Tlv.pyValue buf n .map (decodeMap dec buf) where
  reads i v j h := by
    obtain ⟨⟨count, c⟩, h1, h⟩ := bind_eq_ok.1 h
    obtain ⟨l, hl, hc, rfl⟩ := (readVarint_reads _ _ _).1 h1
    obtain ⟨⟨m, last, c'⟩, h2, h3⟩ := bind_eq_ok.1 h
    cases h3
    obtain ⟨es, rfl, hat, hs, hok, rfl, rfl⟩ :=
      entries_reads (fun _ _ => keyString_iff) hr h2
    refine ⟨.map l es, rfl, At.append_iff.2 ⟨hl, hat⟩, ⟨hc, hs, okEntries_iff.2 hok⟩, ?_, ?_⟩
    · rw [Tlv.pyValue, foldl_appendEntry]
    · simp [Tlv.payload, Tlv.bytesOf, Nat.add_assoc]
  accepts hb t i ht hi hat hok hn := by
    cases t <;> cases ht
    rename_i l es
    obtain ⟨hl, hs, hok⟩ := hok
    simp only [Tlv.payload, Tlv.bytesOf, List.tail_cons, List.length_append] at hat hn ⊢
    obtain ⟨h1, h2⟩ := At.append_iff.1 hat
    obtain ⟨last, hloop⟩ := entries_accepts (fun _ _ => keyString_iff) ha hb h2
      (okEntries_iff.1 hok) hs (by omega)
    unfold decodeMap
    rw [(readVarint_reads _ _ _).2 ⟨l, h1, hl, rfl⟩, ok_bind]
    simp only
    rw [hloop, ok_bind, Tlv.pyValue, foldl_appendEntry, Nat.add_assoc]

theorem decodeArm_spec (hr : Reads varint Tlv.pyValue buf dec)
    (ha : Accepts varint Tlv.pyValue buf n dec) (tag : Tag) :
    ArmSpec varint Tlv.pyValue buf n tag (decodeArm dec buf tag) := by
  have hadd : ∀ i n s : Nat, Except.ok (ε := Error) (i + n) = .ok s → s = i + n :=
    fun _ _ _ h => (Except.ok.inj h).symm
  have hadd' : buf.length < 2 ^ 64 → ∀ i n : Nat, i + n ≤ buf.length →
      Except.ok (ε := Error) (i + n) = .ok (i + n) := fun _ _ _ _ => rfl
  cases tag with
  | null => exact armSpec_null
  | bool => exact armSpec_bool fun _ => rfl
  | int =>
    have hmake : ∀ raw : Bytes, raw.length = 8 →
        Except.ok (ε := Error) (Value.int (unpackQ raw)) = .ok (Tlv.ofFixed .int raw).pyValue := by
      intro raw hl
      rw [unpackQ_eq hl]
      rfl
    exact armSpec_fixed (by rfl) hmake
  | uint =>
    have hmake : ∀ raw : Bytes, raw.length = 8 →
        Except.ok (ε := Error) (Value.uint (beNat raw)) = .ok (Tlv.ofFixed .uint raw).pyValue := by
      intro raw hl
      rw [← toNat_u64OfBe hl]
      rfl
    exact armSpec_fixed (by rfl) hmake
  | string =>
    exact armSpec_string readVarint_reads hadd hadd' (fun _ _ => stringOfUtf8_iff) fun _ _ => rfl
  | bytes => exact armSpec_bytes readVarint_reads hadd hadd' fun _ _ => rfl
  | array => exact decodeArray_spec hr ha
  | map => exact decodeMap_spec hr ha
  | timestamp =>
    have hmake : ∀ raw : Bytes, raw.length = 8 →
        Except.ok (ε := Error) (Value.timestamp (unpackQ raw)) =
          .ok (Tlv.ofFixed .timestamp raw).pyValue := by
      intro raw hl
      rw [unpackQ_eq hl]
      rfl
    exact armSpec_fixed (by rfl) hmake
  | hash =>
    have hmake : ∀ raw : Bytes, raw.length = 32 →
        Except.ok (ε := Error) (Value.hash raw) = .ok (Tlv.ofFixed .hash raw).pyValue := by
      intro raw hl
      simp only [Tlv.ofFixed, dif_pos hl]
      rfl
    exact armSpec_fixed (by rfl) hmake

/-! ### The whole decoder -/

theorem decodeInto_spec (frames : Nat) :
    Reads varint Tlv.pyValue buf (decodeInto buf frames) ∧
      Accepts varint Tlv.pyValue buf frames (decodeInto buf frames) := by
  induction frames with
  | zero =>
    refine ⟨fun i v j h => (by cases h), fun _ t i _ _ hl => ?_⟩
    have := t.bytesOf_length_pos
    omega
  | succ frames ih =>
    have harm := decodeArm_spec ih.1 ih.2
    exact ⟨onTag_reads harm, onTag_accepts harm⟩

/-- The Python decoder accepts exactly the acceptable trees. -/
theorem decode_iff (hbuf : buf.length < 2 ^ 64) {v : Value} :
    decode buf = .ok v ↔ ∃ t, Spells varint buf t ∧ v = t.pyValue := by
  constructor
  · intro h
    obtain ⟨⟨v', c⟩, h1, h2⟩ := bind_eq_ok.1 h
    simp only at h2
    split at h2
    · cases h2
    · rename_i hc
      cases h2
      obtain ⟨t, hat, hok, rfl, rfl⟩ := (decodeInto_spec _).1 _ _ _ h1
      rw [Nat.zero_add, not_not] at hc
      exact ⟨t, ⟨hat.eq_of_length hc, hok⟩, rfl⟩
  · rintro ⟨t, ⟨rfl, hok⟩, rfl⟩
    unfold decode
    rw [(decodeInto_spec _).2 hbuf t 0 At.of_eq hok (by omega), ok_bind]
    simp

/-! ### The recursion suffices -/

theorem readVarint_ne_recursion {i : Nat} : readVarint buf i ≠ .error .recursion := by
  suffices h : ∀ k i result shift, readVarintLoop buf k i result shift ≠ .error .recursion from
    h _ _ _ _
  intro k
  induction k with
  | zero => exact fun _ _ _ h => by cases h
  | succ k ih =>
    intro i result shift
    rw [readVarintLoop]
    split
    · exact fun h => by cases h
    · simp only
      split
      · exact fun h => by cases h
      · exact ih _ _ _

theorem decodeArm_ne_recursion (hr : Reads varint Tlv.pyValue buf dec) {tag : Tag} {i : Nat}
    (hi : i ≤ buf.length) (hdec : ∀ c, i ≤ c → c ≤ buf.length → dec c ≠ .error .recursion) :
    decodeArm dec buf tag i ≠ .error .recursion := by
  unfold decodeArm
  cases tag with
  | null => exact fun h => by cases h
  | bool => exact takeBool_ne_error (fun h => by cases h) fun _ h => by cases h
  | int => refine takeTo_ne_error ?_ fun _ => ?_ <;> exact fun h => by cases h
  | uint => refine takeTo_ne_error ?_ fun _ => ?_ <;> exact fun h => by cases h
  | string =>
    refine takeSized_ne_error (fun _ => readVarint_ne_recursion) (fun _ _ h => by cases h)
      (fun h => by cases h) fun raw => ?_
    unfold stringOfUtf8
    split <;> exact fun h => by cases h
  | bytes =>
    exact takeSized_ne_error (fun _ => readVarint_ne_recursion) (fun _ _ h => by cases h)
      (fun h => by cases h) fun _ h => by cases h
  | array =>
    refine bind_ne_error readVarint_ne_recursion fun ⟨n, c⟩ hn => ?_
    have hc := readVarint_reads.cursor_lt hi hn
    refine bind_ne_error ?_ fun _ _ h => by cases h
    exact items_ne_error hr hc.2 fun c' h1 h2 => hdec c' (by omega) h2
  | map =>
    refine bind_ne_error readVarint_ne_recursion fun ⟨n, c⟩ hn => ?_
    have hc := readVarint_reads.cursor_lt hi hn
    refine bind_ne_error ?_ fun _ _ h => by cases h
    refine entries_ne_error hr (fun _ _ => keyString_iff) ?_
      (fun h => by cases h) hc.2 fun c' h1 h2 => hdec c' (by omega) h2
    intro v
    cases v <;> exact fun h => by cases h
  | timestamp => refine takeTo_ne_error ?_ fun _ => ?_ <;> exact fun h => by cases h
  | hash => refine takeTo_ne_error ?_ fun _ => ?_ <;> exact fun h => by cases h

theorem decodeInto_ne_recursion {frames i : Nat} (hi : i ≤ buf.length)
    (h : buf.length < frames + i) : decodeInto buf frames i ≠ .error .recursion := by
  induction frames generalizing i with
  | zero => omega
  | succ frames ih =>
    rw [decodeInto, onTag]
    split
    · exact fun h => by cases h
    · rename_i byte hb
      have hlt : i < buf.length := (List.getElem?_eq_some_iff.1 hb).1
      split
      · exact decodeArm_ne_recursion (decodeInto_spec _).1 hlt fun c h1 h2 => ih h2 (by omega)
      · exact fun h => by cases h

/-- The decoder never uses up the recursion it is granted. -/
theorem decode_ne_recursion : decode buf ≠ .error .recursion := by
  refine bind_ne_error (decodeInto_ne_recursion (by omega) (by omega)) fun ⟨v, c⟩ _ => ?_
  simp only
  split <;> exact fun h => by cases h

end

end Py

end Myco.Canonical
