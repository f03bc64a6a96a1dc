import Myco.Canonical.Cursor

/-!
# The Rust decoder

`decode` of `kernel/shared/src/canonical_bytes.rs`, cursor in hand. The recursion of `decode_into`
is bounded by a number of stack frames; `decode` grants more frames than the input has bytes, and
never runs out of them (`decode_ne_stack`). The one addition of two lengths that can exceed a
`usize` is checked: past it a build with overflow checks panics in the addition, and a build
without them in the slice that follows.

`decode_iff`: the decoder accepts exactly the acceptable trees, for the reading of a varint that
keeps its low 64 bits.
-/

namespace Myco.Canonical

open Myco.Lib

/-! ### The code -/

/-- What stops a function: an error it returns, a panic, or a stack that is used up. -/
inductive Fault (ε : Type) where
  | err (e : ε)
  | panic
  | stack

def Fault.map {ε ε' : Type} (f : ε → ε') : Fault ε → Fault ε'
  | .err e => .err (f e)
  | .panic => .panic
  | .stack => .stack

abbrev Decoded := Except (Fault CanonicalBytesError)

abbrev invalid (what : InvalidInput) : Fault CanonicalBytesError := .err (.invalidInput what)

/-- `usize` addition. -/
def addUsize (a b : Nat) : Decoded Nat :=
  if a + b < 2 ^ 64 then .ok (a + b) else .error .panic

/-- The loop of `read_varint`, with the rounds it has left. -/
def readVarintLoop (buf : Bytes) : Nat → Nat → UInt64 → UInt64 → Decoded (UInt64 × Nat)
  | 0, _, _, _ => .error (invalid .varintTooLong)
  | k + 1, cur, result, shift =>
    match buf[cur]? with
    | none => .error (invalid .varintTruncated)
    | some byte =>
      let result := result ||| (byte &&& 0x7f).toUInt64 <<< shift
      if byte &&& 0x80 = 0 then .ok (result, cur + 1)
      else readVarintLoop buf k (cur + 1) result (shift + 7)

def readVarint (buf : Bytes) (offset : Nat) : Decoded (UInt64 × Nat) :=
  readVarintLoop buf 10 offset 0 0

/-- `read_varint` with its number `as usize`. -/
def readLength (buf : Bytes) (offset : Nat) : Decoded (Nat × Nat) := do
  let (length, cursor) ← readVarint buf offset
  .ok (length.toNat, cursor)

/-- `try_into().expect("size 32")`. -/
def hashOfSlice (raw : Bytes) : Decoded Value :=
  if h : raw.length = 32 then .ok (.hash ⟨raw, h⟩) else .error .panic

/-- `std::str::from_utf8`. -/
def stringOfUtf8 (raw : Bytes) : Decoded Value :=
  match utf8? raw with
  | none => .error (invalid (.utf8 raw))
  | some text => .ok (.string text)

/-- The text of a map key. -/
def keyString : Value → Decoded String
  | .string s => .ok s
  | other => .error (invalid (.mapKey other))

/-- `entries.insert(key_string, val)`. -/
def insertEntry (entries : List (String × Value)) (key : String) (val : Value) :
    List (String × Value) :=
  OrdMap.insert utf8 key val entries

/-- The guard on a count: every item takes at least a byte. -/
def guardCount (container : Tag) (count remaining : Nat) : Decoded Unit :=
  if count > remaining then .error (.err (.valueTooLarge container count remaining)) else .ok ()

def decodeArray (dec : Nat → Decoded (Value × Nat)) (buf : Bytes) (cursor : Nat) :
    Decoded (Value × Nat) := do
  let (count, cursor) ← readLength buf cursor
  guardCount .array count (buf.length - cursor)
  let (items, cursor) ← iterM (pushItem dec) count ([], cursor)
  .ok (.array items, cursor)

def decodeMap (dec : Nat → Decoded (Value × Nat)) (buf : Bytes) (cursor : Nat) :
    Decoded (Value × Nat) := do
  let (count, cursor) ← readLength buf cursor
  guardCount .map count (buf.length - cursor)
  let (entries, _, cursor) ←
    iterM (putEntry dec buf keyString (invalid .mapOrder) insertEntry) count ([], none, cursor)
  .ok (.map entries, cursor)

/-- The arms of `decode_into`, with the decoder that they recurse to. -/
def decodeArm (dec : Nat → Decoded (Value × Nat)) (buf : Bytes) (tag : Tag) (cursor : Nat) :
    Decoded (Value × Nat) :=
  let short := invalid (.payloadTruncated tag)
  match tag with
  | .null => .ok (.null, cursor)
  | .bool => takeBool buf short (fun b => invalid (.boolByte b)) .bool cursor
  | .int => takeTo buf short (fun raw => .ok (.int (i64OfBe raw))) cursor (cursor + 8)
  | .uint => takeTo buf short (fun raw => .ok (.uint (u64OfBe raw))) cursor (cursor + 8)
  | .string => takeSized buf (readLength buf) addUsize short stringOfUtf8 cursor
  | .bytes => takeSized buf (readLength buf) addUsize short (fun raw => .ok (.bytes raw)) cursor
  | .array => decodeArray dec buf cursor
  | .map => decodeMap dec buf cursor
  | .timestamp => takeTo buf short (fun raw => .ok (.timestamp (i64OfBe raw))) cursor (cursor + 8)
  | .hash => takeTo buf short hashOfSlice cursor (cursor + 32)

/-- `decode_into`, with the stack frames left. -/
def decodeInto (buf : Bytes) : Nat → Nat → Decoded (Value × Nat)
  | 0, _ => .error .stack
  | frames + 1, offset =>
    onTag buf (invalid .truncated) (fun b => invalid (.unknownTag b))
      (decodeArm (decodeInto buf frames) buf) offset

def decode (buf : Bytes) : Decoded Value := do
  let (value, cursor) ← decodeInto buf (buf.length + 1) 0
  if cursor ≠ buf.length then .error (invalid (.trailing cursor buf.length)) else .ok value

/-! ### Varints -/

/-- How `read_varint` reads a varint: ten bytes at most, the bits above 63 dropped. -/
def u64Varint (l : Leb) : Option Nat :=
  if l.bytes.length ≤ 10 then some (l.value % 2 ^ 64) else none

theorem u64Varint_lt {l : Leb} {n : Nat} (h : u64Varint l = some n) : n < 2 ^ 64 := by
  unfold u64Varint at h
  split at h
  · rw [← Option.some.inj h]
    exact Nat.mod_lt _ (by decide)
  · cases h

/-- The loop adds up the groups of the varint that starts at the cursor, modulo `2^64`. -/
theorem readVarintLoop_eq {buf : Bytes} {k i j acc : Nat} {result shift : UInt64}
    (hk : j + k = 10) (hs : shift.toNat = 7 * j) (hacc : acc < 2 ^ (7 * j))
    (hr : result.toNat = acc % 2 ^ 64) :
    (readVarintLoop buf k i result shift).toOption = (readLeb buf k i).map
      (fun s => (UInt64.ofNat (acc + 2 ^ (7 * j) * lebValue s), i + s.length)) := by
  induction k generalizing i j acc result shift with
  | zero => rfl
  | succ k ih =>
    simp only [readVarintLoop, readLeb]
    cases hb : buf[i]? with
    | none => rfl
    | some x =>
      have hx := x.toNat_lt
      have hbit : x &&& 0x80 = 0 ↔ x < 0x80 := by
        rw [← UInt8.toNat_inj, UInt8.toNat_and, UInt8.lt_iff_toNat_lt]
        exact and_0x80_eq_zero_iff hx
      have hnew : (result ||| (x &&& 0x7f).toUInt64 <<< shift).toNat
          = (acc + 2 ^ (7 * j) * (x.toNat % 128)) % 2 ^ 64 := by
        rw [← or_shiftLeft hacc, Nat.or_mod_two_pow, UInt64.toNat_or, hr,
          UInt64.toNat_shiftLeft, hs, UInt8.toNat_toUInt64, toNat_and_0x7f,
          Nat.mod_eq_of_lt (show 7 * j < 64 by omega)]
      have hacc' : acc + 2 ^ (7 * j) * (x.toNat % 128) < 2 ^ (7 * (j + 1)) := by
        rw [show 7 * (j + 1) = 7 * j + 7 by omega, Nat.pow_add]
        have : 2 ^ (7 * j) * (x.toNat % 128) ≤ 2 ^ (7 * j) * 127 :=
          Nat.mul_le_mul_left _ (by omega)
        omega
      simp only [hbit]
      split
      · rename_i hlt
        have hlt' : x.toNat < 128 := UInt8.lt_iff_toNat_lt.1 hlt
        simp only [Except.toOption, Option.map_some, lebValue, Nat.mul_zero, Nat.add_zero,
          List.length_singleton, Option.some.injEq, Prod.mk.injEq, and_true]
        apply UInt64.toNat_inj.1
        rw [hnew, UInt64.toNat_ofNat']
      · have hshift : (shift + 7).toNat = 7 * (j + 1) := by
          rw [UInt64.toNat_add, hs]
          simp only [UInt64.reduceToNat]
          omega
        rw [ih (j := j + 1) (by omega) hshift hacc' hnew, Option.map_map]
        congr 1
        funext s
        simp only [Function.comp_apply, lebValue, List.length_cons, Prod.mk.injEq]
        refine ⟨?_, by omega⟩
        congr 1
        rw [show 7 * (j + 1) = 7 * j + 7 by omega, Nat.pow_add]
        ring

theorem readVarint_iff {buf : Bytes} {i j : Nat} {n : UInt64} :
    readVarint buf i = .ok (n, j) ↔
      ∃ l : Leb, At buf i l.bytes ∧ u64Varint l = some n.toNat ∧ j = i + l.bytes.length := by
  have h := @readVarintLoop_eq buf 10 i 0 0 0 0 rfl rfl (by decide) rfl
  have hok : readVarint buf i = .ok (n, j) ↔ (readVarint buf i).toOption = some (n, j) := by
    cases readVarint buf i <;> simp [Except.toOption]
  rw [hok, readVarint, h, Option.map_eq_some_iff]
  simp only [Nat.mul_zero, Nat.pow_zero, Nat.one_mul, Nat.zero_add, Prod.mk.injEq]
  constructor
  · rintro ⟨s, hs, hn, rfl⟩
    obtain ⟨h1, h2, h3⟩ := readLeb_sound hs
    refine ⟨⟨s, h2⟩, h1, ?_, rfl⟩
    rw [u64Varint, if_pos h3, ← hn, UInt64.toNat_ofNat']
    rfl
  · rintro ⟨l, h1, h2, rfl⟩
    unfold u64Varint at h2
    split at h2
    · rename_i h3
      refine ⟨l.bytes, readLeb_complete h1 l.isLeb h3, ?_, rfl⟩
      apply UInt64.toNat_inj.1
      rw [UInt64.toNat_ofNat', ← Option.some.inj h2]
      rfl
    · cases h2

/-! ### The value of a tree -/

mutual

/-- The value a tree stands for: a map is built by inserting its entries in turn. -/
def Tlv.value : Tlv → Value
  | .null => .null
  | .bool b => .bool b
  | .int i => .int i
  | .uint u => .uint u
  | .string _ s => .string s
  | .bytes _ b => .bytes b
  | .array _ items => .array (valueItems items)
  | .map _ entries => .map (OrdMap.ofList utf8 (valueEntries entries))
  | .timestamp ts => .timestamp ts
  | .hash h => .hash h

def valueItems : List Tlv → List Value
  | [] => []
  | t :: ts => t.value :: valueItems ts

def valueEntries : List (Key × Tlv) → List (String × Value)
  | [] => []
  | (k, t) :: es => (k.text, t.value) :: valueEntries es

end

theorem valueItems_eq {ts : List Tlv} : valueItems ts = ts.map Tlv.value := by
  induction ts with
  | nil => rfl
  | cons t ts ih => rw [valueItems, ih, List.map_cons]

theorem valueEntries_eq {es : List (Key × Tlv)} :
    valueEntries es = es.map (fun e => (e.1.text, e.2.value)) := by
  induction es with
  | nil => rfl
  | cons e es ih => rw [valueEntries, ih, List.map_cons]

/-! ### What each arm accepts -/

section

variable {buf : Bytes}

theorem readLength_reads : ReadsVarint u64Varint buf (readLength buf) := by
  intro i n j
  unfold readLength
  constructor
  · intro h
    obtain ⟨⟨m, c⟩, h1, h2⟩ := bind_eq_ok.1 h
    cases h2
    exact readVarint_iff.1 h1
  · rintro ⟨l, hat, hl, rfl⟩
    have hn : (UInt64.ofNat n).toNat = n := UInt64.toNat_ofNat_of_lt' (u64Varint_lt hl)
    rw [readVarint_iff.2 ⟨l, hat, hl.trans (congrArg some hn.symm), rfl⟩, ok_bind]
    simp only [hn]

theorem addUsize_eq {i n s : Nat} (h : addUsize i n = .ok s) : s = i + n := by
  unfold addUsize at h
  split at h <;> cases h
  rfl

theorem addUsize_fits (hbuf : buf.length < 2 ^ 64) {i n : Nat} (h : i + n ≤ buf.length) :
    addUsize i n = .ok (i + n) := by
  rw [addUsize, if_pos (by omega)]

theorem stringOfUtf8_iff {raw : Bytes} {v : Value} :
    stringOfUtf8 raw = .ok v ↔ ∃ s, raw = utf8 s ∧ v = .string s := by
  unfold stringOfUtf8
  constructor
  · intro h
    split at h
    · cases h
    · rename_i s hs
      cases h
      exact ⟨s, (utf8_of_utf8? hs).symm, rfl⟩
  · rintro ⟨s, rfl, rfl⟩
    rw [utf8?_utf8]

theorem keyString_iff {t : Tlv} {k : String} :
    keyString t.value = .ok k ↔ ∃ l s, t = .string l s ∧ k = s := by
  constructor
  · intro h
    cases t <;> cases h
    exact ⟨_, _, rfl, rfl⟩
  · rintro ⟨l, s, rfl, rfl⟩
    rfl

theorem guardCount_eq_ok {container : Tag} {count remaining : Nat} :
    guardCount container count remaining = .ok () ↔ count ≤ remaining := by
  unfold guardCount
  split <;> simp <;> omega

theorem foldl_insertEntry {es : List (Key × Tlv)} :
    es.foldl (putTree Tlv.value (fun s => s) insertEntry) [] =
      OrdMap.ofList utf8 (valueEntries es) := by
  rw [valueEntries_eq, OrdMap.ofList, List.foldl_map]
  rfl

variable {dec : Nat → Decoded (Value × Nat)} {n : Nat}

theorem decodeArray_spec (hr : Reads u64Varint Tlv.value buf dec)
    (ha : Accepts u64Varint Tlv.value buf n dec) :
    ArmSpec u64Varint Tlv.value buf n .array (decodeArray dec buf) where
  reads i v j h := by
    obtain ⟨⟨count, c⟩, h1, h⟩ := bind_eq_ok.1 h
    obtain ⟨l, hl, hc, rfl⟩ := (readLength_reads _ _ _).1 h1
    obtain ⟨_, -, h⟩ := bind_eq_ok.1 h
    obtain ⟨⟨items, c'⟩, h2, h3⟩ := bind_eq_ok.1 h
    cases h3
    obtain ⟨ts, rfl, hat, hok, rfl, rfl⟩ := items_reads hr h2
    refine ⟨.array l ts, rfl, At.append_iff.2 ⟨hl, hat⟩, ⟨hc, okItems_iff.2 hok⟩, ?_, ?_⟩
    · rw [Tlv.value, valueItems_eq]
    · simp [Tlv.payload, Tlv.bytesOf, Nat.add_assoc]
  accepts hb t i ht hi hat hok hn := by
    cases t <;> cases ht
    rename_i l ts
    obtain ⟨hl, hok⟩ := hok
    simp only [Tlv.payload, Tlv.bytesOf, List.tail_cons, List.length_append] at hat hn ⊢
    obtain ⟨h1, h2⟩ := At.append_iff.1 hat
    have hfit := h2.length_le (h1.length_le hi)
    have hcount := length_le_bytesOfItems ts
    unfold decodeArray
    rw [(readLength_reads _ _ _).2 ⟨l, h1, hl, rfl⟩, ok_bind]
    simp only
    rw [guardCount_eq_ok.2 (by omega), ok_bind,
      items_accepts ha hb h2 (okItems_iff.1 hok) (by omega), ok_bind, Tlv.value, valueItems_eq,
      Nat.add_assoc]

theorem decodeMap_spec (hr : Reads u64Varint Tlv.value buf dec)
    (ha : Accepts u64Varint Tlv.value buf n dec) :
    ArmSpec u64Varint Tlv.value buf n .map (decodeMap dec buf) where
  reads i v j h := by
    obtain ⟨⟨count, c⟩, h1, h⟩ := bind_eq_ok.1 h
    obtain ⟨l, hl, hc, rfl⟩ := (readLength_reads _ _ _).1 h1
    obtain ⟨_, -, h⟩ := bind_eq_ok.1 h
    obtain ⟨⟨m, last, c'⟩, h2, h3⟩ := bind_eq_ok.1 h
    cases h3
    obtain ⟨es, rfl, hat, hs, hok, rfl, rfl⟩ :=
      entries_reads (fun _ _ => keyString_iff) hr h2
    refine ⟨.map l es, rfl, At.append_iff.2 ⟨hl, hat⟩, ⟨hc, hs, okEntries_iff.2 hok⟩, ?_, ?_⟩
    · rw [Tlv.value, foldl_insertEntry]
    · simp [Tlv.payload, Tlv.bytesOf, Nat.add_assoc]
  accepts hb t i ht hi hat hok hn := by
    cases t <;> cases ht
    rename_i l es
    obtain ⟨hl, hs, hok⟩ := hok
    simp only [Tlv.payload, Tlv.bytesOf, List.tail_cons, List.length_append] at hat hn ⊢
    obtain ⟨h1, h2⟩ := At.append_iff.1 hat
    have hfit := h2.length_le (h1.length_le hi)
    have hcount := length_le_bytesOfEntries es
    obtain ⟨last, hloop⟩ := entries_accepts (fun _ _ => keyString_iff) ha hb h2
      (okEntries_iff.1 hok) hs (by omega)
    unfold decodeMap
    rw [(readLength_reads _ _ _).2 ⟨l, h1, hl, rfl⟩, ok_bind]
    simp only
    rw [guardCount_eq_ok.2 (by omega), ok_bind, hloop, ok_bind, Tlv.value, foldl_insertEntry,
      Nat.add_assoc]

theorem decodeArm_spec (hr : Reads u64Varint Tlv.value buf dec)
    (ha : Accepts u64Varint Tlv.value buf n dec) (tag : Tag) :
    ArmSpec u64Varint Tlv.value buf n tag (decodeArm dec buf tag) := by
  have hadd : ∀ i n s, addUsize i n = .ok s → s = i + n := fun _ _ _ => addUsize_eq
  have hadd' : buf.length < 2 ^ 64 → ∀ i n, i + n ≤ buf.length → addUsize i n = .ok (i + n) :=
    fun hb _ _ => addUsize_fits hb
  cases tag with
  | null => exact armSpec_null
  | bool => exact armSpec_bool fun _ => rfl
  | int => exact armSpec_fixed rfl fun _ _ => rfl
  | uint => exact armSpec_fixed rfl fun _ _ => rfl
  | string =>
    exact armSpec_string readLength_reads hadd hadd' (fun _ _ => stringOfUtf8_iff) fun _ _ => rfl
  | bytes => exact armSpec_bytes readLength_reads hadd hadd' fun _ _ => rfl
  | array => exact decodeArray_spec hr ha
  | map => exact decodeMap_spec hr ha
  | timestamp => exact armSpec_fixed rfl fun _ _ => rfl
  | hash =>
    refine armSpec_fixed rfl fun raw hl => ?_
    simp only [hashOfSlice, Tlv.ofFixed, dif_pos hl]
    rfl

/-! ### The whole decoder -/

theorem decodeInto_spec (frames : Nat) :
    Reads u64Varint Tlv.value buf (decodeInto buf frames) ∧
      Accepts u64Varint Tlv.value buf frames (decodeInto buf frames) := by
  induction frames with
  | zero =>
    refine ⟨fun i v j h => (by cases h), fun _ t i _ _ hl => ?_⟩
    have := t.bytesOf_length_pos
    omega
  | succ frames ih =>
    have harm := decodeArm_spec ih.1 ih.2
    exact ⟨onTag_reads harm, onTag_accepts harm⟩

theorem spells_of_decode {v : Value} (h : decode buf = .ok v) :
    ∃ t, Spells u64Varint buf t ∧ v = t.value := by
  obtain ⟨⟨v', c⟩, h1, h2⟩ := bind_eq_ok.1 h
  simp only at h2
  split at h2
  · cases h2
  · rename_i hc
    cases h2
    obtain ⟨t, hat, hok, rfl, rfl⟩ := (decodeInto_spec _).1 _ _ _ h1
    rw [Nat.zero_add, not_not] at hc
    exact ⟨t, ⟨hat.eq_of_length hc, hok⟩, rfl⟩

/-- The Rust decoder accepts exactly the acceptable trees. -/
theorem decode_iff (hbuf : buf.length < 2 ^ 64) {v : Value} :
    decode buf = .ok v ↔ ∃ t, Spells u64Varint buf t ∧ v = t.value := by
  refine ⟨spells_of_decode, ?_⟩
  rintro ⟨t, ⟨rfl, hok⟩, rfl⟩
  unfold decode
  rw [(decodeInto_spec _).2 hbuf t 0 At.of_eq hok (by omega), ok_bind]
  simp

/-! ### The stack suffices -/

theorem readVarint_ne_stack {i : Nat} : readVarint buf i ≠ .error .stack := by
  suffices h : ∀ k i result shift, readVarintLoop buf k i result shift ≠ .error .stack from
    h _ _ _ _
  intro k
  induction k with
  | zero => exact fun _ _ _ h => by cases h
  | succ k ih =>
    intro i result shift
    rw [readVarintLoop]
    split
    · exact fun h => by cases h
    · simp only
      split
      · exact fun h => by cases h
      · exact ih _ _ _

theorem readLength_ne_stack {i : Nat} : readLength buf i ≠ .error .stack :=
  bind_ne_error readVarint_ne_stack fun _ _ h => by cases h

theorem guardCount_ne_stack {container : Tag} {count remaining : Nat} :
    guardCount container count remaining ≠ .error .stack := by
  unfold guardCount
  split <;> exact fun h => by cases h

theorem decodeArm_ne_stack (hr : Reads u64Varint Tlv.value buf dec) {tag : Tag} {i : Nat}
    (hi : i ≤ buf.length) (hdec : ∀ c, i ≤ c → c ≤ buf.length → dec c ≠ .error .stack) :
    decodeArm dec buf tag i ≠ .error .stack := by
  have hadd : ∀ i n, addUsize i n ≠ .error .stack := by
    intro i n
    unfold addUsize
    split <;> exact fun h => by cases h
  unfold decodeArm
  cases tag with
  | null => exact fun h => by cases h
  | bool => exact takeBool_ne_error (fun h => by cases h) fun _ h => by cases h
  | string =>
    refine takeSized_ne_error (fun _ => readLength_ne_stack) hadd (fun h => by cases h) ?_
    intro raw
    unfold stringOfUtf8
    split <;> exact fun h => by cases h
  | bytes =>
    exact takeSized_ne_error (fun _ => readLength_ne_stack) hadd (fun h => by cases h)
      fun _ h => by cases h
  | array =>
    refine bind_ne_error readLength_ne_stack fun ⟨n, c⟩ hn => ?_
    have hc := readLength_reads.cursor_lt hi hn
    refine bind_ne_error guardCount_ne_stack fun _ _ => bind_ne_error ?_ fun _ _ h => by cases h
    exact items_ne_error hr hc.2 fun c' h1 h2 => hdec c' (by omega) h2
  | map =>
    refine bind_ne_error readLength_ne_stack fun ⟨n, c⟩ hn => ?_
    have hc := readLength_reads.cursor_lt hi hn
    refine bind_ne_error guardCount_ne_stack fun _ _ => bind_ne_error ?_ fun _ _ h => by cases h
    refine entries_ne_error hr (fun _ _ => keyString_iff) ?_ (fun h => by cases h)
      hc.2 fun c' h1 h2 => hdec c' (by omega) h2
    intro v
    cases v <;> exact fun h => by cases h
  | hash =>
    refine takeTo_ne_error (fun h => by cases h) fun raw => ?_
    unfold hashOfSlice
    split <;> exact fun h => by cases h
  | int => refine takeTo_ne_error ?_ fun _ => ?_ <;> exact fun h => by cases h
  | uint => refine takeTo_ne_error ?_ fun _ => ?_ <;> exact fun h => by cases h
  | timestamp => refine takeTo_ne_error ?_ fun _ => ?_ <;> exact fun h => by cases h

theorem decodeInto_ne_stack {frames i : Nat} (hi : i ≤ buf.length)
    (h : buf.length < frames + i) : decodeInto buf frames i ≠ .error .stack := by
  induction frames generalizing i with
  | zero => omega
  | succ frames ih =>
    rw [decodeInto, onTag]
    split
    · exact fun h => by cases h
    · rename_i byte hb
      have hlt : i < buf.length := (List.getElem?_eq_some_iff.1 hb).1
      split
      · exact decodeArm_ne_stack (decodeInto_spec _).1 hlt fun c h1 h2 => ih h2 (by omega)
      · exact fun h => by cases h

/-- The decoder never uses up the stack it is granted. -/
theorem decode_ne_stack : decode buf ≠ .error .stack := by
  refine bind_ne_error (decodeInto_ne_stack (by omega) (by omega)) fun ⟨v, c⟩ _ => ?_
  simp only
  split <;> exact fun h => by cases h

end

end Myco.Canonical
