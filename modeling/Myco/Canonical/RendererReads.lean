import Myco.Canonical.Agree
import Myco.Canonical.Parity
import Myco.Canonical.Renderer

/-!
# What the TypeScript decoder accepts

The trees of the Python decoder, with another value: a text loses a byte order mark in front
(`Tlv.unmark`), and of two entries of a map whose keys have become one text the later replaces the
earlier. `Ts.decode_iff` says so for whole inputs, and `Tlv.denote_tsValue` that the value means
what the Rust value of the unmarked tree means.
-/

namespace Myco.Canonical

open Myco.Lib

/-! ### Byte order marks -/

/-- U+FEFF. -/
def byteOrderMark : String := "\uFEFF"

/-- The text without the mark in front. -/
def unmarkText (s : String) : String := (stripPrefix byteOrderMark s).getD s

theorem utf8_byteOrderMark : utf8 byteOrderMark = [0xEF, 0xBB, 0xBF] := by decide

theorem unmarkText_append {s : String} : unmarkText (byteOrderMark ++ s) = s := by
  have h : stripPrefix byteOrderMark (byteOrderMark ++ s) = some s := by
    rw [stripPrefix, if_pos startsWith_append]
    exact congrArg some (String.ext (by simp))
  rw [unmarkText, h, Option.getD_some]

theorem unmarkText_of_not {s : String} (h : ¬ startsWith byteOrderMark s) : unmarkText s = s := by
  rw [unmarkText, stripPrefix, if_neg h, Option.getD_none]

theorem withoutMark_of_not {raw : Bytes} (h : ¬ utf8 byteOrderMark <+: raw) :
    Ts.withoutMark raw = raw := by
  rw [utf8_byteOrderMark] at h
  unfold Ts.withoutMark
  split
  · exact absurd (List.prefix_append [0xEF, 0xBB, 0xBF] _) h
  · rfl

theorem withoutMark_append {raw : Bytes} : Ts.withoutMark (utf8 byteOrderMark ++ raw) = raw := by
  rw [utf8_byteOrderMark]
  rfl

namespace Ts

theorem textDecode_iff {raw : Bytes} {u : Str} :
    textDecode raw = .ok u ↔ ∃ s, raw = utf8 s ∧ u = units (unmarkText s) := by
  have hread : textDecode raw = .ok u ↔ ∃ s, utf8? (withoutMark raw) = some s ∧ u = units s := by
    unfold textDecode
    split
    · rename_i h
      simp [h]
    · rename_i s h
      simp [h, eq_comm]
  rw [hread]
  by_cases hmark : utf8 byteOrderMark <+: raw
  · obtain ⟨rest, rfl⟩ := hmark
    rw [withoutMark_append]
    constructor
    · rintro ⟨s, hs, rfl⟩
      exact ⟨byteOrderMark ++ s, by rw [utf8_append, utf8_of_utf8? hs], by rw [unmarkText_append]⟩
    · rintro ⟨s, hs, rfl⟩
      obtain ⟨r, rfl⟩ := eq_append_of_startsWith (p := byteOrderMark) (s := s) ⟨rest, hs⟩
      rw [utf8_append, List.append_cancel_left_eq] at hs
      exact ⟨r, by rw [hs, utf8?_utf8], by rw [unmarkText_append]⟩
  · rw [withoutMark_of_not hmark]
    constructor
    · rintro ⟨s, hs, rfl⟩
      have hraw := utf8_of_utf8? hs
      exact ⟨s, hraw.symm, by rw [unmarkText_of_not (fun h => hmark (hraw ▸ h))]⟩
    · rintro ⟨s, rfl, rfl⟩
      exact ⟨s, utf8?_utf8, by rw [unmarkText_of_not hmark]⟩

end Ts

/-! ### The value of a tree -/

mutual

/-- The tree with the mark taken from the front of every text, lengths as they were. -/
def Tlv.unmark : Tlv → Tlv
  | .string len s => .string len (unmarkText s)
  | .array n items => .array n (unmarkItems items)
  | .map n entries => .map n (unmarkEntries entries)
  | t => t

def unmarkItems : List Tlv → List Tlv
  | [] => []
  | t :: ts => t.unmark :: unmarkItems ts

def unmarkEntries : List (Key × Tlv) → List (Key × Tlv)
  | [] => []
  | (k, t) :: es => (⟨k.len, unmarkText k.text⟩, t.unmark) :: unmarkEntries es

end

theorem unmarkItems_eq {ts : List Tlv} : unmarkItems ts = ts.map Tlv.unmark := by
  induction ts with
  | nil => rfl
  | cons t ts ih => rw [unmarkItems, ih, List.map_cons]

theorem unmarkEntries_eq {es : List (Key × Tlv)} :
    unmarkEntries es = es.map fun e => (⟨e.1.len, unmarkText e.1.text⟩, e.2.unmark) := by
  induction es with
  | nil => rfl
  | cons e es ih => rw [unmarkEntries, ih, List.map_cons]

mutual

/-- The TypeScript value a tree stands for: a map is built by setting its entries in turn. -/
def Tlv.tsValue : Tlv → Ts.Value
  | .null => .null
  | .bool b => .bool b
  | .int i => .int i.toInt
  | .uint u => .uint u.toNat
  | .string _ s => .string (Ts.units s)
  | .bytes _ b => .bytes b
  | .array _ items => .array (tsValueItems items)
  | .map _ entries => .map ((tsValueEntries entries).foldl (fun m e => Ts.mapSet m e.1 e.2) [])
  | .timestamp ts => .timestamp ts.toInt
  | .hash h => .hash h.bytes

def tsValueItems : List Tlv → List Ts.Value
  | [] => []
  | t :: ts => t.tsValue :: tsValueItems ts

def tsValueEntries : List (Key × Tlv) → List (Ts.Str × Ts.Value)
  | [] => []
  | (k, t) :: es => (Ts.units k.text, t.tsValue) :: tsValueEntries es

end

theorem tsValueItems_eq {ts : List Tlv} : tsValueItems ts = ts.map Tlv.tsValue := by
  induction ts with
  | nil => rfl
  | cons t ts ih => rw [tsValueItems, ih, List.map_cons]

theorem tsValueEntries_eq {es : List (Key × Tlv)} :
    tsValueEntries es = es.map fun e => (Ts.units e.1.text, e.2.tsValue) := by
  induction es with
  | nil => rfl
  | cons e es ih => rw [tsValueEntries, ih, List.map_cons]

/-- What the decoder makes of a tree. -/
def Tlv.tsRead (t : Tlv) : Ts.Value := t.unmark.tsValue

/-! ### Errors that tell where they are -/

section

variable {α ε : Type} {rd : Leb → Option Nat} {val : Tlv → α} {b : Bytes} {n : Nat}
  {dec dec' : Nat → Except ε (α × Nat)}

theorem toOption_eq_iff {β : Type} {x y : Except ε β} :
    x.toOption = y.toOption ↔ ∀ a, x = .ok a ↔ y = .ok a := by
  cases x with
  | error e =>
    cases y with
    | error e' => simp [Except.toOption]
    | ok a => simp [Except.toOption]
  | ok a =>
    cases y with
    | error e' => simp [Except.toOption]
    | ok a' =>
      simp only [Except.toOption, Option.some.injEq, Except.ok.injEq]
      exact ⟨fun h _ => by rw [h], fun h => ((h a).1 rfl).symm⟩

theorem ArmSpec.congr {tag : Tag} (h : ArmSpec rd val b n tag dec)
    (heq : ∀ i, (dec' i).toOption = (dec i).toOption) : ArmSpec rd val b n tag dec' where
  reads i v j hd := h.reads i v j ((toOption_eq_iff.1 (heq i) _).1 hd)
  accepts hb t i h1 h2 h3 h4 h5 := (toOption_eq_iff.1 (heq i) _).2 (h.accepts hb t i h1 h2 h3 h4 h5)

theorem Reads.congr (h : Reads rd val b dec) (heq : ∀ i, (dec' i).toOption = (dec i).toOption) :
    Reads rd val b dec' :=
  fun i v j hd => h i v j ((toOption_eq_iff.1 (heq i) _).1 hd)

theorem Accepts.congr (h : Accepts rd val b n dec)
    (heq : ∀ i, (dec' i).toOption = (dec i).toOption) : Accepts rd val b n dec' :=
  fun hb t i h1 h2 h3 => (toOption_eq_iff.1 (heq i) _).2 (h hb t i h1 h2 h3)

theorem takeTo_toOption {short short' : ε} {make : Bytes → Except ε α} {i j : Nat} :
    (takeTo b short make i j).toOption = (takeTo b short' make i j).toOption := by
  unfold takeTo
  split <;> rfl

theorem takeBool_toOption {short short' : ε} {bad : UInt8 → ε} {make : Bool → α} {i : Nat} :
    (takeBool b short bad make i).toOption = (takeBool b short' bad make i).toOption := by
  unfold takeBool
  split <;> rfl

theorem onTag_toOption {truncated truncated' : ε} {unknown unknown' : UInt8 → ε}
    {arm : Tag → Nat → Except ε (α × Nat)} {i : Nat} :
    (onTag b truncated unknown arm i).toOption = (onTag b truncated' unknown' arm i).toOption := by
  unfold onTag
  split
  · rfl
  · split <;> rfl

end

namespace Ts

/-! ### What each arm accepts -/

section

variable {b : Bytes} {dec : Nat → Read (Value × Nat)} {n : Nat}

/-- The varints of the Python decoder. -/
theorem readVarintLoop_toOption {k offset result shift : Nat} :
    (readVarintLoop b k offset result shift).toOption =
      (Py.readVarintLoop b k offset result shift).toOption := by
  induction k generalizing offset result shift with
  | zero => rfl
  | succ k ih =>
    unfold readVarintLoop Py.readVarintLoop
    cases b[offset]? with
    | none => rfl
    | some x =>
      have hbit : x &&& 0x80 = 0 ↔ x.toNat &&& 0x80 = 0 := by
        rw [← UInt8.toNat_inj, UInt8.toNat_and]
        rfl
      have hlow : (x &&& 0x7f).toNat = x.toNat &&& 0x7f := UInt8.toNat_and x 0x7f
      simp only [hbit, hlow]
      split
      · rfl
      · exact ih

theorem readVarint_reads : ReadsVarint Py.varint b (readVarint b) := by
  intro i m j
  rw [← Py.readVarint_reads, ← toOption_eq_some, ← toOption_eq_some, readVarint, Py.readVarint,
    readVarintLoop_toOption]

theorem i64OfSlice_eq {raw : Bytes} (h : raw.length = 8) :
    i64OfSlice raw = (i64OfBe raw).toInt := by
  rw [← Py.unpackQ_eq h, i64OfSlice, Py.unpackQ]
  split <;> split <;> omega

theorem keyString_iff {t : Tlv} {k : Str} :
    keyString t.tsRead = .ok k ↔ ∃ l s, t = .string l s ∧ k = units (unmarkText s) := by
  constructor
  · intro h
    cases t <;> cases h
    exact ⟨_, _, rfl, rfl⟩
  · rintro ⟨l, s, rfl, rfl⟩
    rfl

theorem foldl_mapSet {es : List (Key × Tlv)} :
    es.foldl (putTree Tlv.tsRead (fun s => units (unmarkText s)) mapSet) [] =
      (tsValueEntries (unmarkEntries es)).foldl (fun m e => mapSet m e.1 e.2) [] := by
  rw [tsValueEntries_eq, unmarkEntries_eq, List.map_map, List.foldl_map]
  rfl

theorem decodeArm_array (hr : Reads Py.varint Tlv.tsRead b dec)
    (ha : Accepts Py.varint Tlv.tsRead b n dec) :
    ArmSpec Py.varint Tlv.tsRead b n .array (decodeArm dec b .array) where
  reads i v j h := by
    obtain ⟨⟨count, c⟩, h1, h⟩ := bind_eq_ok.1 h
    obtain ⟨l, hl, hc, rfl⟩ := (readVarint_reads _ _ _).1 h1
    obtain ⟨⟨items, c'⟩, h2, h3⟩ := bind_eq_ok.1 h
    cases h3
    obtain ⟨ts, rfl, hat, hok, rfl, rfl⟩ := items_reads hr h2
    refine ⟨.array l ts, rfl, At.append_iff.2 ⟨hl, hat⟩, ⟨hc, okItems_iff.2 hok⟩, ?_, ?_⟩
    · rw [Tlv.tsRead, Tlv.unmark, Tlv.tsValue, tsValueItems_eq, unmarkItems_eq, List.map_map]
      rfl
    · simp [Tlv.payload, Tlv.bytesOf, Nat.add_assoc]
  accepts hb t i ht hi hat hok hn := by
    cases t <;> cases ht
    rename_i l ts
    obtain ⟨hl, hok⟩ := hok
    simp only [Tlv.payload, Tlv.bytesOf, List.tail_cons, List.length_append] at hat hn ⊢
    obtain ⟨h1, h2⟩ := At.append_iff.1 hat
    simp only [decodeArm, (readVarint_reads _ _ _).2 ⟨l, h1, hl, rfl⟩, ok_bind]
    rw [items_accepts ha hb h2 (okItems_iff.1 hok) (by omega), ok_bind, Tlv.tsRead, Tlv.unmark,
      Tlv.tsValue, tsValueItems_eq, unmarkItems_eq, List.map_map, Nat.add_assoc]
    rfl

theorem decodeArm_map (hr : Reads Py.varint Tlv.tsRead b dec)
    (ha : Accepts Py.varint Tlv.tsRead b n dec) :
    ArmSpec Py.varint Tlv.tsRead b n .map (decodeArm dec b .map) where
  reads i v j h := by
    obtain ⟨⟨count, c⟩, h1, h⟩ := bind_eq_ok.1 h
    obtain ⟨l, hl, hc, rfl⟩ := (readVarint_reads _ _ _).1 h1
    obtain ⟨⟨m, last, c'⟩, h2, h3⟩ := bind_eq_ok.1 h
    cases h3
    obtain ⟨es, rfl, hat, hs, hok, rfl, rfl⟩ := entries_reads (fun _ _ => keyString_iff) hr h2
    refine ⟨.map l es, rfl, At.append_iff.2 ⟨hl, hat⟩, ⟨hc, hs, okEntries_iff.2 hok⟩, ?_, ?_⟩
    · rw [foldl_mapSet, Tlv.tsRead, Tlv.unmark, Tlv.tsValue]
    · simp [Tlv.payload, Tlv.bytesOf, Nat.add_assoc]
  accepts hb t i ht hi hat hok hn := by
    cases t <;> cases ht
    rename_i l es
    obtain ⟨hl, hs, hok⟩ := hok
    simp only [Tlv.payload, Tlv.bytesOf, List.tail_cons, List.length_append] at hat hn ⊢
    obtain ⟨h1, h2⟩ := At.append_iff.1 hat
    obtain ⟨last, hloop⟩ := entries_accepts (fun _ _ => keyString_iff) ha hb h2
      (okEntries_iff.1 hok) hs (by omega)
    simp only [decodeArm, (readVarint_reads _ _ _).2 ⟨l, h1, hl, rfl⟩, ok_bind]
    rw [hloop, ok_bind, foldl_mapSet, Tlv.tsRead, Tlv.unmark, Tlv.tsValue, Nat.add_assoc]

/-- A payload of fixed width, whatever the error says about the offset. -/
theorem decodeArm_fixed {tag : Tag} {width : Nat} {make : Bytes → Read Value}
    (hw : tag.width? = some width) (harm : ∀ i, decodeArm dec b tag i = readBytes b width make i)
    (hm : ∀ raw, raw.length = width → make raw = .ok (Tlv.ofFixed tag raw).tsRead) :
    ArmSpec Py.varint Tlv.tsRead b n tag (decodeArm dec b tag) := by
  have hspec : ArmSpec Py.varint Tlv.tsRead b n tag
      (fun c => takeTo b DecodeError.varintTooLong make c (c + width)) := armSpec_fixed hw hm
  refine hspec.congr fun i => ?_
  rw [harm, readBytes]
  exact takeTo_toOption

/-- A payload behind its length. -/
theorem decodeArm_sized {tag : Tag} {make : Bytes → Read Value}
    (harm : ∀ i, decodeArm dec b tag i = (do
      let (len, offset) ← readVarint b i
      readBytes b len make offset))
    (hspec : ArmSpec Py.varint Tlv.tsRead b n tag
      (takeSized b (readVarint b) (fun i n => .ok (i + n)) .varintTooLong make)) :
    ArmSpec Py.varint Tlv.tsRead b n tag (decodeArm dec b tag) := by
  refine hspec.congr fun i => ?_
  rw [harm, takeSized]
  cases readVarint b i with
  | error e => rfl
  | ok lo => exact takeTo_toOption

theorem decodeArm_spec (hr : Reads Py.varint Tlv.tsRead b dec)
    (ha : Accepts Py.varint Tlv.tsRead b n dec) (tag : Tag) :
    ArmSpec Py.varint Tlv.tsRead b n tag (decodeArm dec b tag) := by
  have hadd : ∀ i n s : Nat, Except.ok (ε := DecodeError) (i + n) = .ok s → s = i + n :=
    fun _ _ _ h => (Except.ok.inj h).symm
  have hadd' : b.length < 2 ^ 64 → ∀ i n : Nat, i + n ≤ b.length →
      Except.ok (ε := DecodeError) (i + n) = .ok (i + n) := fun _ _ _ _ => rfl
  cases tag with
  | null => exact armSpec_null
  | bool =>
    have hspec : ArmSpec Py.varint Tlv.tsRead b n .bool
        (takeBool b DecodeError.varintTooLong .boolByte .bool) := armSpec_bool fun _ => rfl
    exact hspec.congr fun i => takeBool_toOption
  | int =>
    refine decodeArm_fixed rfl (fun _ => rfl) fun raw hl => ?_
    rw [i64OfSlice_eq hl]
    rfl
  | uint =>
    refine decodeArm_fixed rfl (fun _ => rfl) fun raw hl => ?_
    rw [← toNat_u64OfBe hl]
    rfl
  | string =>
    refine decodeArm_sized (fun _ => rfl) (armSpec_string readVarint_reads hadd hadd' ?_
      fun _ _ => rfl)
    intro raw v
    have hmap : (textDecode raw).map Value.string = .ok v ↔
        ∃ u, textDecode raw = .ok u ∧ .string u = v := by
      cases textDecode raw <;> simp [Except.map]
    rw [hmap]
    constructor
    · rintro ⟨u, hu, rfl⟩
      obtain ⟨s, rfl, rfl⟩ := textDecode_iff.1 hu
      exact ⟨s, rfl, rfl⟩
    · rintro ⟨s, rfl, rfl⟩
      exact ⟨_, textDecode_iff.2 ⟨s, rfl, rfl⟩, rfl⟩
  | bytes =>
    exact decodeArm_sized (fun _ => rfl) (armSpec_bytes readVarint_reads hadd hadd' fun _ _ => rfl)
  | array => exact decodeArm_array hr ha
  | map => exact decodeArm_map hr ha
  | timestamp =>
    refine decodeArm_fixed rfl (fun _ => rfl) fun raw hl => ?_
    rw [i64OfSlice_eq hl]
    rfl
  | hash =>
    refine decodeArm_fixed rfl (fun _ => rfl) fun raw hl => ?_
    simp only [Tlv.ofFixed, dif_pos hl]
    rfl

/-! ### The whole decoder -/

theorem decodeOne_spec (frames : Nat) :
    Reads Py.varint Tlv.tsRead b (decodeOne b frames) ∧
      Accepts Py.varint Tlv.tsRead b frames (decodeOne b frames) := by
  induction frames with
  | zero =>
    refine ⟨fun i v j h => (by cases h), fun _ t i _ _ hl => ?_⟩
    have := t.bytesOf_length_pos
    omega
  | succ frames ih =>
    have harm := decodeArm_spec ih.1 ih.2
    have heq : ∀ i, (decodeOne b (frames + 1) i).toOption = (onTag b DecodeError.varintTooLong
        (fun _ => .varintTooLong) (decodeArm (decodeOne b frames) b) i).toOption :=
      fun i => onTag_toOption
    exact ⟨(onTag_reads harm).congr heq, (onTag_accepts harm).congr heq⟩

theorem exists_tree_of_decode {v : Value} (h : decode b = .ok v) :
    ∃ t, Spells Py.varint b t ∧ v = t.tsRead := by
  obtain ⟨⟨v', c⟩, h1, h2⟩ := bind_eq_ok.1 h
  simp only at h2
  split at h2
  · cases h2
  · rename_i hc
    cases h2
    obtain ⟨t, hat, hok, rfl, rfl⟩ := (decodeOne_spec _).1 _ _ _ h1
    rw [Nat.zero_add, not_not] at hc
    exact ⟨t, ⟨hat.eq_of_length hc, hok⟩, rfl⟩

/-- The TypeScript decoder accepts exactly the trees that the Python decoder accepts. -/
theorem decode_iff (hbuf : b.length < 2 ^ 64) {v : Value} :
    decode b = .ok v ↔ ∃ t, Spells Py.varint b t ∧ v = t.tsRead := by
  refine ⟨exists_tree_of_decode, ?_⟩
  rintro ⟨t, ⟨rfl, hok⟩, rfl⟩
  unfold decode
  rw [(decodeOne_spec _).2 hbuf t 0 At.of_eq hok (by omega), ok_bind]
  simp

end

/-! ### What the value means -/

theorem ofUnits_units {s : String} : ofUnits (units s) = codePoints s := ofUnits_flatMap_units

theorem units_injective : Function.Injective units := by
  intro s t h
  refine codePoints_injective ?_
  rw [← ofUnits_units, h, ofUnits_units]

section

variable {κ κ' α β : Type} [DecidableEq κ] [DecidableEq κ'] {m : List (κ × α)} {k : κ} {v : α}

theorem keys_mapSet : (mapSet m k v).map Prod.fst =
    if (m.map Prod.fst).contains k then m.map Prod.fst else m.map Prod.fst ++ [k] := by
  unfold mapSet
  split
  · rw [List.map_map]
    refine List.map_congr_left fun e _ => ?_
    simp only [Function.comp_apply]
    split
    · rename_i h
      exact h.symm
    · rfl
  · simp

theorem nodup_mapSet (h : (m.map Prod.fst).Nodup) : ((mapSet m k v).map Prod.fst).Nodup := by
  rw [keys_mapSet]
  split
  · exact h
  · rename_i hk
    rw [List.nodup_append]
    refine ⟨h, List.nodup_singleton k, fun a ha b hb hab => hk ?_⟩
    rw [List.mem_singleton] at hb
    rw [List.contains_iff_mem, ← hb, ← hab]
    exact ha

variable {f : κ → κ'} {g : α → β} (hf : Function.Injective f)

include hf

theorem get_map_replace {p : κ'} : OrdMap.get p ((m.map fun e => if e.1 = k then (k, v) else e).map
    fun e => (f e.1, g e.2)) =
      if p = f k ∧ k ∈ m.map Prod.fst then some (g v)
      else OrdMap.get p (m.map fun e => (f e.1, g e.2)) := by
  induction m with
  | nil => simp
  | cons e es ih =>
    simp only [List.map_cons, OrdMap.get_cons, ih, List.mem_cons]
    by_cases hk : e.1 = k
    · subst hk
      by_cases hp : p = f e.1 <;> simp [hp]
    · have hne : f e.1 ≠ f k := fun h => hk (hf h)
      by_cases hp : p = f k
      · subst hp
        have hke : ¬ k = e.1 := fun h => hk h.symm
        simp only [hk, if_false, hne.symm, hke, false_or]
      · simp [hk, hp]

theorem get_mapSet {p : κ'} : OrdMap.get p ((mapSet m k v).map fun e => (f e.1, g e.2)) =
    if p = f k then some (g v) else OrdMap.get p (m.map fun e => (f e.1, g e.2)) := by
  unfold mapSet
  split
  · rename_i hk
    rw [List.contains_iff_mem] at hk
    rw [get_map_replace hf]
    simp only [hk, and_true]
  · rename_i hk
    rw [List.contains_iff_mem] at hk
    rw [List.map_append, OrdMap.get_append, List.map_singleton, OrdMap.get_cons, OrdMap.get_nil]
    by_cases hp : p = f k
    · have hnone : OrdMap.get p (m.map fun e => (f e.1, g e.2)) = none := by
        rw [OrdMap.get_eq_none_iff]
        intro e he heq
        obtain ⟨d, hd, rfl⟩ := List.mem_map.1 he
        exact hk (hf (hp.symm.trans heq) ▸ List.mem_map_of_mem hd)
      simp only [hnone, if_pos hp, Option.none_or]
    · simp only [if_neg hp, Option.or_none]

end

end Ts

/-- A map that is set entry by entry has the last entry of a name. -/
theorem get_foldl_mapSet {es : List (Key × Tlv)} {m : List (Ts.Str × Ts.Value)}
    (ih : ∀ e ∈ es, e.2.tsValue.denote = e.2.keepLast) {p : List CodePoint} :
    OrdMap.get p (((tsValueEntries es).foldl (fun m e => Ts.mapSet m e.1 e.2) m).map
        fun e => (ofUnits e.1, e.2.denote)) =
      (lastEntry es p).or (OrdMap.get p (m.map fun e => (ofUnits e.1, e.2.denote))) := by
  induction es generalizing m with
  | nil => rfl
  | cons e es ihes =>
    rw [List.forall_mem_cons] at ih
    rw [tsValueEntries, List.foldl_cons, ihes ih.2, Ts.get_mapSet ofUnits_injective,
      Ts.ofUnits_units, lastEntry, ih.1]
    cases lastEntry es p with
    | some t => rfl
    | none =>
      simp only [Option.none_or]
      split <;> rfl

theorem Tlv.denote_tsValue {t : Tlv} : t.tsValue.denote = t.keepLast := by
  induction t using Tlv.induction with
  | string l s => rw [tsValue, Ts.Value.denote, keepLast, Ts.ofUnits_units]
  | array n items ih =>
    rw [tsValue, Ts.Value.denote, keepLast]
    congr 1
    induction items with
    | nil => rfl
    | cons t ts ihts =>
      rw [List.forall_mem_cons] at ih
      rw [tsValueItems, Ts.denoteItems, lastItems, ih.1, ihts ih.2]
  | map n entries ih =>
    rw [tsValue, Ts.Value.denote, keepLast]
    congr 1
    funext p
    rw [Ts.denoteEntries_eq, get_foldl_mapSet ih]
    exact Option.or_none
  | _ => rfl

theorem Tlv.distinct_tsValue {t : Tlv} : t.tsValue.Distinct := by
  induction t using Tlv.induction with
  | array n items ih =>
    simpa only [tsValue, Ts.Value.Distinct, Ts.distinctItems_iff, tsValueItems_eq,
      List.forall_mem_map] using ih
  | map n entries ih =>
    simp only [tsValue, Ts.Value.Distinct, Ts.distinctEntries_iff]
    suffices h : ∀ m : List (Ts.Str × Ts.Value), (m.map Prod.fst).Nodup → (∀ e ∈ m, e.2.Distinct) →
        (((tsValueEntries entries).foldl (fun m e => Ts.mapSet m e.1 e.2) m).map Prod.fst).Nodup ∧
          ∀ e ∈ (tsValueEntries entries).foldl (fun m e => Ts.mapSet m e.1 e.2) m,
            e.2.Distinct from
      h [] List.nodup_nil fun e he => by cases he
    induction entries with
    | nil => exact fun m h1 h2 => ⟨h1, h2⟩
    | cons e es ihes =>
      intro m h1 h2
      rw [List.forall_mem_cons] at ih
      rw [tsValueEntries, List.foldl_cons]
      refine ihes ih.2 _ (Ts.nodup_mapSet h1) fun d hd => ?_
      unfold Ts.mapSet at hd
      split at hd
      · obtain ⟨c, hc, rfl⟩ := List.mem_map.1 hd
        split
        · exact ih.1
        · exact h2 c hc
      · rcases List.mem_append.1 hd with hd | hd
        · exact h2 d hd
        · cases List.mem_singleton.1 hd
          exact ih.1
  | _ => trivial

/-- What was decoded is encoded as the Rust value of the unmarked tree. -/
theorem Ts.encode_tsRead {t : Tlv} : Ts.encode t.tsRead = .ok t.unmark.value.wire :=
  Ts.encode_eq_wire Tlv.value_wf Tlv.distinct_tsValue
    (Tlv.denote_tsValue.trans Tlv.denote_value.symm)

end Myco.Canonical
