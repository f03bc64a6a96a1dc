import Myco.Canonical.Decode
import Myco.Canonical.Encode

/-!
# The Rust encoder and decoder undo each other

`decode_encode`: every value is decoded back from its encoding. The canonical tree is acceptable
whatever the value (`Value.canonical_ok`), and stands for the value it was made from
(`Value.value_canonical`).

`encode_decode_iff`: the other direction fails for an input that spells a length in more bytes
than it needs, and only there. `read_varint` takes such an input, the encoder never writes it.
-/

namespace Myco.Canonical

open Myco.Lib

/-- `isize::MAX` of a 64-bit target: no allocation, so no slice or vector, has more bytes. -/
def isizeMax : Nat := 2 ^ 63 - 1

/-- The varint spells a `u64`, in the fewest bytes. -/
def Shortest (l : Leb) : Prop := ∃ n : UInt64, l = Leb.ofNat n.toNat

/-- The varint as it stands, without bound. -/
def anyVarint (l : Leb) : Option Nat := some l.value

/-! ### The canonical tree of a value -/

theorem Key.ok_ofString {k : String} : (Key.ofString k).Ok anyVarint := by
  simp [Key.Ok, Key.ofString, anyVarint]

theorem keyBytes_ofString_injective :
    Function.Injective (fun k : String => keyBytes (Key.ofString k)) := by
  intro k k' h
  have h' : keyBytes (Key.ofString k) ++ [] = keyBytes (Key.ofString k') ++ [] :=
    congrArg (· ++ []) h
  exact congrArg Key.text (keyBytes_unique Key.ok_ofString Key.ok_ofString h').1

theorem canonicalEntries_nodup {es : List (String × Value)} (h : (es.map Prod.fst).Nodup) :
    ((canonicalEntries es).map (fun e => keyBytes e.1)).Nodup := by
  rw [canonicalEntries_eq, List.map_map]
  have := h.map keyBytes_ofString_injective
  rwa [List.map_map] at this

theorem KeySorted.nodup_keys {α : Type} {es : List (String × α)} (h : KeySorted es) :
    (es.map Prod.fst).Nodup := by
  rw [List.Nodup, List.pairwise_map]
  refine List.Pairwise.imp ?_ h
  intro a b hlt heq
  rw [heq] at hlt
  exact lt_irrefl _ hlt

/-- The lengths of the canonical tree are the lengths that follow them, and its keys ascend. -/
theorem Value.canonical_ok {v : Value} (h : v.WF) : v.canonical.Ok anyVarint := by
  induction v using Value.induction with
  | string s => simp [canonical, Tlv.Ok, anyVarint]
  | bytes b => simp [canonical, Tlv.Ok, anyVarint]
  | array items ih =>
    simp only [WF, wfItems_iff] at h
    simp only [canonical, Tlv.Ok, okItems_iff, canonicalItems_eq, List.forall_mem_map]
    exact ⟨by simp [anyVarint], fun v hv => ih v hv (h v hv)⟩
  | map entries ih =>
    simp only [WF, wfEntries_iff] at h
    simp only [canonical, Tlv.Ok, okEntries_iff, mem_sortEntries]
    refine ⟨by simp [anyVarint, canonicalEntries_eq], ?_, ?_⟩
    · exact OrdMap.pairwise_lt_insertionSort (r := fun e : Key × Tlv => keyBytes e.1)
        (canonicalEntries_nodup h.1.nodup_keys)
    · simp only [canonicalEntries_eq, List.forall_mem_map]
      exact fun e he => ⟨Key.ok_ofString, ih e he (h.2 e he)⟩
  | _ => trivial

/-- A value whose encoding fits memory has no length past a `u64`. -/
theorem Value.canonical_fits {v : Value} (h : v.WF) (hmem : v.wire.length ≤ isizeMax) :
    v.canonical.Every FitsU64 := by
  refine ((canonical_ok h).every_le hmem).imp fun l hl => ?_
  obtain ⟨n, hn, hle⟩ := hl
  have heq : l.value = n := Option.some.inj hn
  simp only [isizeMax] at hle
  simp only [FitsU64]
  omega

theorem Value.canonical_every_ofNat {v : Value} :
    v.canonical.Every (fun l => l = Leb.ofNat l.value) := by
  induction v using Value.induction with
  | string s => simp [canonical, Tlv.Every]
  | bytes b => simp [canonical, Tlv.Every]
  | array items ih =>
    simp only [canonical, Tlv.Every, everyItems_iff, canonicalItems_eq, List.forall_mem_map]
    exact ⟨by simp, ih⟩
  | map entries ih =>
    simp only [canonical, Tlv.Every, everyEntries_iff, mem_sortEntries, canonicalEntries_eq,
      List.forall_mem_map]
    exact ⟨by simp, fun e he => ⟨by simp [Key.ofString], ih e he⟩⟩
  | _ => trivial

theorem Value.canonical_shortest {v : Value} (h : v.canonical.Every FitsU64) :
    v.canonical.Every Shortest := by
  refine (h.and canonical_every_ofNat).imp fun l hl => ?_
  refine ⟨UInt64.ofNat l.value, ?_⟩
  rw [UInt64.toNat_ofNat_of_lt' hl.1]
  exact hl.2

theorem u64Varint_of_shortest {l : Leb} (h : Shortest l) : u64Varint l = some l.value := by
  obtain ⟨n, rfl⟩ := h
  have hn := n.toNat_lt
  have hlen : (emit n.toNat).length ≤ 10 := emit_length_le (k := 9) (by omega)
  rw [u64Varint, Leb.bytes_ofNat, if_pos hlen, Leb.value_ofNat, Nat.mod_eq_of_lt hn]

theorem Value.canonical_spells {v : Value} (hwf : v.WF) (h : v.canonical.Every FitsU64) :
    Spells u64Varint v.wire v.canonical := by
  refine ⟨rfl, (canonical_ok hwf).of_reading ((canonical_shortest h).imp fun l hl n hn => ?_)⟩
  rw [u64Varint_of_shortest hl]
  exact hn

/-- The canonical tree stands for the value it was made from. -/
theorem Value.value_canonical {v : Value} (h : v.WF) : v.canonical.value = v := by
  induction v using Value.induction with
  | array items ih =>
    simp only [WF, wfItems_iff] at h
    simp only [canonical, Tlv.value, valueItems_eq, canonicalItems_eq, List.map_map]
    congr 1
    exact (List.map_congr_left fun v hv => ih v hv (h v hv)).trans (List.map_id items)
  | map entries ih =>
    simp only [WF, wfEntries_iff] at h
    simp only [canonical, Tlv.value]
    congr 1
    refine h.1.ofList_eq utf8_injective ?_
    have heq : valueEntries (canonicalEntries entries) = entries := by
      rw [valueEntries_eq, canonicalEntries_eq, List.map_map]
      refine (List.map_congr_left fun e he => ?_).trans (List.map_id entries)
      simp only [Function.comp_apply, ih e he (h.2 e he)]
      rfl
    have hp : (valueEntries (sortEntries (canonicalEntries entries))).Perm
        (valueEntries (canonicalEntries entries)) := by
      rw [valueEntries_eq, valueEntries_eq]
      exact (List.perm_insertionSort _ _).map _
    rwa [heq] at hp
  | _ => rfl

theorem decode_wire {v : Value} (hwf : v.WF) (hfits : v.canonical.Every FitsU64)
    (hmem : v.wire.length ≤ isizeMax) : decode v.wire = .ok v := by
  have hbuf : v.wire.length < 2 ^ 64 := by simp only [isizeMax] at hmem; omega
  refine (decode_iff hbuf).2 ⟨v.canonical, ?_, ?_⟩
  · exact Value.canonical_spells hwf hfits
  · exact (Value.value_canonical hwf).symm

/-- Every value is decoded back from its encoding, with no byte left over. -/
theorem decode_encode {v : Value} (hwf : v.WF) (hmem : v.wire.length ≤ isizeMax) :
    ∃ bs, encode v = .ok bs ∧ decode bs = .ok v := by
  have hfits := Value.canonical_fits hwf hmem
  exact ⟨v.wire, encode_eq hfits, decode_wire hwf hfits hmem⟩

/-- Two keys whose canonical order is not their order in the map. -/
theorem decode_encode_two_keys :
    ∃ bs, encode (.map [("aa", .null), ("b", .array [.int (-1), .string "é"])]) = .ok bs ∧
      decode bs = .ok (.map [("aa", .null), ("b", .array [.int (-1), .string "é"])]) :=
  decode_encode (by simp only [Value.WF, WFEntries, WFItems, and_true, OrdMap.Sorted]; decide)
    (by decide)

/-! ### The value of a tree -/

theorem Tlv.value_wf {t : Tlv} : t.value.WF := by
  induction t using Tlv.induction with
  | array n items ih =>
    simp only [value, Value.WF, wfItems_iff, valueItems_eq, List.forall_mem_map]
    exact ih
  | map n entries ih =>
    simp only [value, Value.WF, wfEntries_iff]
    refine ⟨OrdMap.ofList_sorted, fun e he => ?_⟩
    have := OrdMap.mem_of_mem_ofList he
    rw [valueEntries_eq, List.mem_map] at this
    obtain ⟨d, hd, rfl⟩ := this
    exact ih d hd
  | _ => trivial

theorem fitsU64_of_u64Varint {l : Leb} {n : Nat} (h : u64Varint l = some n) :
    FitsU64 (Leb.ofNat n) := by
  rw [FitsU64, Leb.value_ofNat]
  exact u64Varint_lt h

/-- What the decoder returns has no length past a `u64`. -/
theorem Tlv.Ok.value_fits {t : Tlv} (h : t.Ok u64Varint) :
    t.value.canonical.Every FitsU64 := by
  induction t using Tlv.induction with
  | string l s => exact fitsU64_of_u64Varint h
  | bytes l b => exact fitsU64_of_u64Varint h
  | array n items ih =>
    simp only [Ok, okItems_iff] at h
    simp only [value, Value.canonical, Every, everyItems_iff, canonicalItems_eq, valueItems_eq,
      List.forall_mem_map, List.length_map]
    exact ⟨fitsU64_of_u64Varint h.1, fun t ht => ih t ht (h.2 t ht)⟩
  | map n entries ih =>
    simp only [Ok, okEntries_iff] at h
    simp only [value, Value.canonical, Every, everyEntries_iff, mem_sortEntries,
      canonicalEntries_eq, List.forall_mem_map]
    refine ⟨?_, fun e he => ?_⟩
    · have h1 : (OrdMap.ofList utf8 (valueEntries entries)).length ≤ _ := OrdMap.ofList_length_le
      have h2 := u64Varint_lt h.1
      rw [valueEntries_eq, List.length_map] at h1
      rw [valueEntries_eq, FitsU64, Leb.value_ofNat]
      omega
    · have := OrdMap.mem_of_mem_ofList he
      rw [valueEntries_eq, List.mem_map] at this
      obtain ⟨d, hd, rfl⟩ := this
      exact ⟨fitsU64_of_u64Varint (h.2.2 d hd).1, ih d hd (h.2.2 d hd).2⟩
  | _ => trivial

theorem ofNat_of_shortest {l : Leb} {n : Nat} (hs : Shortest l) (h : u64Varint l = some n) :
    Leb.ofNat n = l := by
  rw [u64Varint_of_shortest hs] at h
  obtain ⟨m, rfl⟩ := hs
  rw [← Option.some.inj h, Leb.value_ofNat]

theorem Key.ofString_text {k : Key} (hs : Shortest k.len) (h : k.Ok u64Varint) :
    Key.ofString k.text = k := by
  rw [Key.ofString, ofNat_of_shortest hs h]

/-- Keys in shortest form that differ as bytes differ as text, so no entry is overwritten. -/
theorem valueEntries_nodup {entries : List (Key × Tlv)} (hascend : KeysAscend entries)
    (hkey : ∀ e ∈ entries, Key.ofString e.1.text = e.1) :
    ((valueEntries entries).map Prod.fst).Nodup := by
  rw [valueEntries_eq, List.map_map, List.Nodup, List.pairwise_map]
  refine List.Pairwise.imp_of_mem ?_ hascend
  intro a b ha hb hlt heq
  have hab : a.1 = b.1 := by
    rw [← hkey a ha, ← hkey b hb]
    exact congrArg Key.ofString heq
  rw [hab] at hlt
  exact lt_irrefl _ hlt

/-- A tree with every varint in shortest form is the canonical tree of its value. -/
theorem Tlv.canonical_value {t : Tlv} (h : t.Ok u64Varint) (hs : t.Every Shortest) :
    t.value.canonical = t := by
  induction t using Tlv.induction with
  | string l s => rw [value, Value.canonical, ofNat_of_shortest hs h]
  | bytes l b => rw [value, Value.canonical, ofNat_of_shortest hs h]
  | array n items ih =>
    simp only [Ok, okItems_iff] at h
    simp only [Every, everyItems_iff] at hs
    rw [value, Value.canonical, valueItems_eq, List.length_map, ofNat_of_shortest hs.1 h.1,
      canonicalItems_eq, List.map_map]
    congr 1
    exact (List.map_congr_left fun t ht => ih t ht (h.2 t ht) (hs.2 t ht)).trans
      (List.map_id items)
  | map n entries ih =>
    simp only [Ok, okEntries_iff] at h
    simp only [Every, everyEntries_iff] at hs
    have hkey : ∀ e ∈ entries, Key.ofString e.1.text = e.1 := fun e he =>
      Key.ofString_text (hs.2 e he).1 (h.2.2 e he).1
    have hnodup := valueEntries_nodup h.2.1 hkey
    have hperm := OrdMap.ofList_perm utf8_injective hnodup
    have hback : canonicalEntries (valueEntries entries) = entries := by
      rw [canonicalEntries_eq, valueEntries_eq, List.map_map]
      refine (List.map_congr_left fun e he => ?_).trans (List.map_id entries)
      simp only [Function.comp_apply, hkey e he, ih e he (h.2.2 e he).2 (hs.2 e he).2]
      rfl
    have hsort : sortEntries (canonicalEntries (OrdMap.ofList utf8 (valueEntries entries)))
        = sortEntries entries := by
      refine OrdMap.insertionSort_eq_of_mem_iff (r := fun e : Key × Tlv => keyBytes e.1) ?_ ?_ ?_
      · exact canonicalEntries_nodup ((hperm.map Prod.fst).nodup_iff.2 hnodup)
      · rw [← hback]
        exact canonicalEntries_nodup hnodup
      · intro e
        have hp := hperm.map (fun e : String × Value => (Key.ofString e.1, e.2.canonical))
        rw [← canonicalEntries_eq, ← canonicalEntries_eq, hback] at hp
        exact hp.mem_iff
    have hself : sortEntries entries = entries :=
      List.Pairwise.insertionSort_eq (h.2.1.imp fun hlt => le_of_lt hlt)
    rw [value, Value.canonical, hsort, hself, hperm.length_eq, valueEntries_eq, List.length_map,
      ofNat_of_shortest hs.1 h.1]
  | _ => rfl

/-! ### Which inputs are re-encoded as they were -/

/-- Every length and count of the input is spelled in as few bytes as a `u64` can be. -/
def ShortestLengths (b : Bytes) : Prop := ∃ t, Spells u64Varint b t ∧ t.Every Shortest

/-- Re-encoding what was decoded gives the input back if and only if the input spells every
length in shortest form. -/
theorem encode_decode_iff {b : Bytes} {v : Value} (h : decode b = .ok v) :
    encode v = .ok b ↔ ShortestLengths b := by
  obtain ⟨t, ht, rfl⟩ := spells_of_decode h
  rw [encode_eq ht.2.value_fits, Except.ok.injEq]
  constructor
  · rintro rfl
    exact ⟨_, Value.canonical_spells Tlv.value_wf ht.2.value_fits,
      Value.canonical_shortest ht.2.value_fits⟩
  · rintro ⟨t', ht', hs⟩
    obtain rfl := ht'.unique ht
    rw [Value.wire, Tlv.canonical_value ht.2 hs, ht.1]

/-- A map with a list of a byte string and a null under its one key. -/
def nestedValue : Value := .map [("k", .array [.bytes [1, 2], .null])]

def nestedInput : Bytes :=
  [0x31, 0x01, 0x20, 0x01, 0x6b, 0x30, 0x02, 0x21, 0x02, 0x01, 0x02, 0x00]

theorem nestedValue_wf : nestedValue.WF := by
  simp only [nestedValue, Value.WF, WFEntries, WFItems, and_true, OrdMap.Sorted]
  decide

theorem encode_decode_nested : ShortestLengths nestedInput :=
  (encode_decode_iff (show decode nestedInput = .ok nestedValue from rfl)).1 rfl

/-- The empty byte string with its length spelled in two bytes is accepted and comes back
shorter. -/
theorem encode_decode_overlong_length :
    ¬ ∀ (b : Bytes) (v : Value), decode b = .ok v → encode v = .ok b := by
  intro h
  have hd : decode [0x21, 0x80, 0x00] = .ok (.bytes []) := rfl
  have he : encode (.bytes []) = .ok [0x21, 0x00] := rfl
  have hne := (he.symm.trans (h _ _ hd))
  exact absurd (Except.ok.inj hne) (by decide)

end Myco.Canonical
