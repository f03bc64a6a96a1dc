import Myco.Canonical.Size

/-!
# How long an encoding is

`Value.size` is the number of bytes the encoder writes for a value (`encode_length`), and no other
spelling of it that the decoder accepts is shorter (`size_le_of_decode`). A map takes its entries'
bytes in whichever order they come, so that what it was built from tells its length (`size_mapOf`).
-/

namespace Myco.Canonical

open Myco.Lib

/-- A length and as many bytes. -/
def prefixedSize (n : Nat) : Nat := (lenVarint n).length + n

def keySize (k : String) : Nat := 1 + prefixedSize (utf8 k).length

theorem writeVarintLoop_length_le {k : Nat} {n : UInt64} :
    (writeVarintLoop k n).length ≤ k + 1 := by
  induction k generalizing n with
  | zero => exact Nat.le_refl 1
  | succ k ih =>
    rw [writeVarintLoop]
    split
    · rw [List.length_cons]
      exact Nat.succ_le_succ ih
    · simp

theorem lenVarint_length_le {n : Nat} : (lenVarint n).length ≤ 10 :=
  writeVarintLoop_length_le

theorem lenVarint_length_pos {n : Nat} : 0 < (lenVarint n).length := by
  rw [lenVarint, writeVarint, writeVarintLoop]
  split
  · exact Nat.succ_pos _
  · exact Nat.one_pos

theorem lenVarint_of_lt {n : Nat} (h : n < 128) : (lenVarint n).length = 1 := by
  rw [lenVarint_eq (by omega), emit_of_lt h]
  rfl

mutual

def Value.size : Value → Nat
  | .null => 1
  | .bool _ => 2
  | .int _ => 9
  | .uint _ => 9
  | .string s => 1 + prefixedSize (utf8 s).length
  | .bytes b => 1 + prefixedSize b.length
  | .array items => 1 + (lenVarint items.length).length + itemsSize items
  | .map entries => 1 + (lenVarint entries.length).length + entriesSize entries
  | .timestamp _ => 9
  | .hash _ => 33

def itemsSize : List Value → Nat
  | [] => 0
  | v :: vs => v.size + itemsSize vs

def entriesSize : List (String × Value) → Nat
  | [] => 0
  | (k, v) :: es => keySize k + v.size + entriesSize es

end

theorem itemsSize_eq {vs : List Value} : itemsSize vs = (vs.map Value.size).sum := by
  induction vs with
  | nil => rfl
  | cons v vs ih => rw [itemsSize, ih, List.map_cons, List.sum_cons]

theorem entriesSize_eq {es : List (String × Value)} :
    entriesSize es = (es.map fun e => keySize e.1 + e.2.size).sum := by
  induction es with
  | nil => rfl
  | cons e es ih => rw [entriesSize, ih, List.map_cons, List.sum_cons]

/-! ### The encoder -/

theorem encodeString_length {s : String} : (encodeString s).length = keySize s := by
  simp only [encodeString, keySize, prefixedSize, List.length_cons, List.length_append]
  omega

theorem encodeItems_length {vs : List Value} {body : Bytes}
    (ih : ∀ v ∈ vs, ∀ bs, encodeInto v = .ok bs → bs.length = v.size)
    (h : encodeItems vs = .ok body) : body.length = itemsSize vs := by
  induction vs generalizing body with
  | nil =>
    cases h
    rfl
  | cons v vs ihs =>
    rw [List.forall_mem_cons] at ih
    obtain ⟨bs, hbs, -, -⟩ := encode_within (v := v)
    rw [encodeItems, hbs, ok_bind] at h
    cases hrest : encodeItems vs with
    | error e =>
      rw [hrest] at h
      cases h
    | ok rest =>
      rw [hrest] at h
      cases h
      rw [List.length_append, ih.1 bs hbs, ihs ih.2 hrest, itemsSize]

/-- The bytes of a key and its value. -/
def keyedLength {ε : Type} (e : Bytes × Except ε Bytes) : Nat :=
  e.1.length + (e.2.toOption.getD []).length

theorem concatKeyed_length {ε : Type} {ks : List (Bytes × Except ε Bytes)} {body : Bytes}
    (h : concatKeyed ks = .ok body) : body.length = (ks.map keyedLength).sum := by
  induction ks generalizing body with
  | nil =>
    cases h
    rfl
  | cons e ks ih =>
    obtain ⟨key, val⟩ := e
    cases val with
    | error e => cases h
    | ok v =>
      rw [concatKeyed, ok_bind] at h
      cases hrest : concatKeyed ks with
      | error e =>
        rw [hrest] at h
        cases h
      | ok rest =>
        rw [hrest] at h
        cases h
        rw [List.map_cons, List.sum_cons, ← ih hrest, List.length_append, List.length_append,
          ← Nat.add_assoc]
        rfl

theorem encodeEntries_length {es : List (String × Value)} {body : Bytes}
    (ih : ∀ e ∈ es, ∀ bs, encodeInto e.2 = .ok bs → bs.length = e.2.size)
    (h : concatKeyed (sortKeyed (encodeEntries es)) = .ok body) : body.length = entriesSize es := by
  have hperm : (sortKeyed (encodeEntries es)).Perm (encodeEntries es) :=
    List.perm_insertionSort _ _
  rw [concatKeyed_length h, (hperm.map keyedLength).sum_nat, encodeEntries_eq, List.map_map,
    entriesSize_eq]
  congr 1
  refine List.map_congr_left fun e he => ?_
  obtain ⟨bs, hbs, -, -⟩ := encode_within (v := e.2)
  have hlen := ih e he bs hbs
  show (encodeString e.1).length + ((encodeInto e.2).toOption.getD []).length = _
  rw [encodeString_length, hbs, ← hlen]
  rfl

/-- The encoder writes as many bytes as the value takes. -/
theorem encode_length {v : Value} {bs : Bytes} (h : encode v = .ok bs) : bs.length = v.size := by
  induction v using Value.induction generalizing bs with
  | string s =>
    cases h
    exact encodeString_length
  | bytes b =>
    cases h
    rw [List.length_cons, List.length_append, Value.size, prefixedSize]
    omega
  | array items ih =>
    rw [encode, encodeInto] at h
    cases hbody : encodeItems items with
    | error e =>
      rw [hbody] at h
      cases h
    | ok body =>
      rw [hbody] at h
      cases h
      rw [List.length_cons, List.length_append, encodeItems_length (fun v hv bs => ih v hv) hbody,
        Value.size]
      omega
  | map entries ih =>
    rw [encode, encodeInto] at h
    cases hbody : concatKeyed (sortKeyed (encodeEntries entries)) with
    | error e =>
      rw [hbody] at h
      cases h
    | ok body =>
      rw [hbody] at h
      cases h
      rw [List.length_cons, List.length_append,
        encodeEntries_length (fun e he bs => ih e he) hbody, Value.size]
      omega
  | hash h' =>
    cases h
    rw [List.length_cons, h'.length_eq, Value.size]
  | _ =>
    cases h
    simp [Value.size, i64Be_length, u64Be_length]

/-- A map that is built from entries for different keys takes their bytes. -/
theorem size_mapOf {es : List (String × Value)} (h : (es.map Prod.fst).Nodup) :
    (mapOf es).size =
      1 + (lenVarint es.length).length + (es.map fun e => keySize e.1 + e.2.size).sum := by
  have hperm : (OrdMap.ofList utf8 es).Perm es := OrdMap.ofList_perm utf8_injective h
  rw [mapOf, Value.size, hperm.length_eq, entriesSize_eq, (hperm.map _).sum_nat]

/-! ### The decoder -/

theorem lenVarint_le_of_read {l : Leb} {n : Nat} (h : u64Varint l = some n) :
    (lenVarint n).length ≤ l.bytes.length := by
  rw [lenVarint_eq (u64Varint_lt h)]
  unfold u64Varint at h
  split at h
  · have hle : n ≤ l.value := Option.some.inj h ▸ Nat.mod_le _ _
    have hlt : l.value < 128 ^ l.bytes.length := lebValue_lt
    have hpos := l.isLeb.length_pos
    obtain ⟨k, hk⟩ : ∃ k, l.bytes.length = k + 1 := ⟨l.bytes.length - 1, by omega⟩
    rw [hk] at hlt ⊢
    exact emit_length_le (by omega)
  · cases h

theorem prefixedSize_le {l : Leb} {b : Bytes} (h : u64Varint l = some b.length) :
    prefixedSize b.length ≤ (l.bytes ++ b).length := by
  have := lenVarint_le_of_read h
  rw [prefixedSize, List.length_append]
  omega

theorem keySize_le {k : Key} (h : k.Ok u64Varint) : keySize k.text ≤ (keyBytes k).length := by
  have := prefixedSize_le h
  rw [keySize, keyBytes, List.length_cons]
  omega

theorem itemsSize_le {ts : List Tlv}
    (ih : ∀ t ∈ ts, t.Ok u64Varint → t.value.size ≤ t.bytesOf.length) (hok : OkItems u64Varint ts) :
    itemsSize (valueItems ts) ≤ (bytesOfItems ts).length := by
  induction ts with
  | nil => exact Nat.le_refl 0
  | cons t ts ih' =>
    have h1 := ih t List.mem_cons_self hok.1
    have h2 := ih' (fun t' ht' => ih t' (List.mem_cons_of_mem _ ht')) hok.2
    rw [valueItems, itemsSize, bytesOfItems, List.length_append]
    omega

theorem entriesSize_le {es : List (Key × Tlv)}
    (ih : ∀ e ∈ es, e.2.Ok u64Varint → e.2.value.size ≤ e.2.bytesOf.length)
    (hok : OkEntries u64Varint es) :
    entriesSize (valueEntries es) ≤ (bytesOfEntries es).length := by
  induction es with
  | nil => exact Nat.le_refl 0
  | cons e es ih' =>
    obtain ⟨hk, ht, hes⟩ := hok
    have h1 := ih e List.mem_cons_self ht
    have h2 := ih' (fun e' he' => ih e' (List.mem_cons_of_mem _ he')) hes
    have h3 := keySize_le hk
    rw [valueEntries, entriesSize, bytesOfEntries, List.length_append, List.length_append]
    omega

/-- What is decoded takes no more bytes than it was decoded from. -/
theorem size_le_of_decode {buf : Bytes} {v : Value} (h : decode buf = .ok v) :
    v.size ≤ buf.length := by
  obtain ⟨t, ⟨rfl, hok⟩, rfl⟩ := spells_of_decode h
  clear h
  induction t using Tlv.induction with
  | string len s =>
    exact keySize_le (k := ⟨len, s⟩) hok
  | bytes len b =>
    have := prefixedSize_le hok
    rw [Tlv.value, Value.size, Tlv.bytesOf, List.length_cons]
    omega
  | array n items ih =>
    have h1 := lenVarint_le_of_read hok.1
    have h2 := itemsSize_le ih hok.2
    rw [Tlv.value, Value.size, Tlv.bytesOf, List.length_cons, List.length_append, valueItems_eq,
      List.length_map]
    rw [valueItems_eq] at h2
    omega
  | map n entries ih =>
    obtain ⟨hn, -, hes⟩ := hok
    have h1 := lenVarint_le_of_read hn
    have h2 := entriesSize_le ih hes
    have hcount : (OrdMap.ofList utf8 (valueEntries entries)).length ≤ entries.length := by
      rw [valueEntries_eq]
      exact OrdMap.ofList_length_le.trans (List.length_map _).le
    have h3 : (lenVarint (OrdMap.ofList utf8 (valueEntries entries)).length).length ≤
        (lenVarint entries.length).length := by
      have hlt := u64Varint_lt hn
      rw [lenVarint_eq hlt, lenVarint_eq (hcount.trans_lt hlt)]
      exact emit_length_mono hcount
    have h4 : entriesSize (OrdMap.ofList utf8 (valueEntries entries)) ≤
        entriesSize (valueEntries entries) := by
      rw [entriesSize_eq, entriesSize_eq]
      exact OrdMap.sum_ofList_le
    rw [Tlv.value, Value.size, Tlv.bytesOf, List.length_cons, List.length_append]
    omega
  | hash h =>
    rw [Tlv.value, Value.size, Tlv.bytesOf, List.length_cons, h.length_eq]
  | _ => simp [Tlv.value, Value.size, Tlv.bytesOf, i64Be_length, u64Be_length]

end Myco.Canonical
