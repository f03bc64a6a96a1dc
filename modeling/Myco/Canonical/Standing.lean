import Myco.Canonical.Decode

/-!
# What stands at an offset

A byte string is known to a decoder only through what it finds at an offset. `At` is put byte for
byte here (`at_iff`), so that it survives a byte changed elsewhere (`At.set`), and an acceptable
key or tree at an offset is told from any other that stands there.
-/

namespace Myco.Lib

variable {b s t : Bytes} {a i j : Nat} {x : UInt8}

theorem at_iff : At b i s ↔ ∀ j x, s[j]? = some x → b[i + j]? = some x := by
  unfold At
  rw [List.prefix_iff_getElem?]
  constructor
  · intro h j x hx
    obtain ⟨hj, rfl⟩ := List.getElem?_eq_some_iff.1 hx
    rw [← List.getElem?_drop]
    exact h j hj
  · intro h j hj
    rw [List.getElem?_drop]
    exact h j _ (List.getElem?_eq_getElem hj)

theorem At.get (h : At b i s) (hx : s[j]? = some x) : b[i + j]? = some x := at_iff.1 h j x hx

theorem At.eq_of_length_eq (hs : At b a s) (ht : At b a t) (hl : s.length = t.length) : s = t :=
  (List.prefix_of_prefix_length_le hs ht hl.le).eq_of_length hl

/-- A byte changed outside of what stands at an offset leaves it there. -/
theorem At.set (h : At b a s) (hi : i < a ∨ a + s.length ≤ i) : At (b.set i x) a s := by
  rw [at_iff] at h ⊢
  intro j y hy
  obtain ⟨hj, -⟩ := List.getElem?_eq_some_iff.1 hy
  rw [List.getElem?_set_ne (by omega)]
  exact h j y hy

/-- What stands inside of something else occurs in it. -/
theorem At.inside (hs : At b a s) (ht : At b i t) (hi : a ≤ i) (hle : i + t.length ≤ a + s.length) :
    t <:+: s := by
  have h : At s (i - a) t := by
    rw [at_iff] at hs ht ⊢
    intro j x hx
    obtain ⟨hj, -⟩ := List.getElem?_eq_some_iff.1 hx
    have hlt : i - a + j < s.length := by omega
    have hsame := hs (i - a + j) _ (List.getElem?_eq_getElem hlt)
    rw [show a + (i - a + j) = i + j by omega, ht j x hx] at hsame
    rw [List.getElem?_eq_getElem hlt, ← Option.some.inj hsame]
  exact List.IsPrefix.isInfix h |>.trans (List.drop_suffix _ _).isInfix

/-- The top bit of a byte of a spelling is clear exactly at its end. -/
theorem IsLeb.lt_iff (h : IsLeb s) (hx : s[j]? = some x) : x < 0x80 ↔ j + 1 = s.length := by
  induction s generalizing j with
  | nil => exact h.elim
  | cons y ys ih =>
    unfold IsLeb at h
    split at h
    · subst h
      cases j with
      | zero => simp_all
      | succ j => simp at hx
    · have hpos := h.length_pos
      cases j with
      | zero =>
        obtain rfl : y = x := by simpa using hx
        simp only [List.length_cons]
        constructor
        · intro hlt
          contradiction
        · omega
      | succ j =>
        rw [List.length_cons, ih h (by simpa using hx)]
        omega

end Myco.Lib

namespace Myco.Canonical

open Myco.Lib

variable {rd : Leb → Option Nat} {b : Bytes} {a j : Nat} {x : UInt8}

/-- The bytes of a varint go on up to the first one below `0x80`. -/
theorem Leb.lt_iff_at {l : Leb} (h : At b a l.bytes) (hj : j < l.bytes.length)
    (hx : b[a + j]? = some x) : x < 0x80 ↔ j + 1 = l.bytes.length := by
  have hy := h.get (List.getElem?_eq_getElem hj)
  obtain rfl := Option.some.inj (hx.symm.trans hy)
  exact l.isLeb.lt_iff (List.getElem?_eq_getElem hj)

theorem Tlv.unique_at {t t' : Tlv} (hok : t.Ok rd) (hok' : t'.Ok rd) (h : At b a t.bytesOf)
    (h' : At b a t'.bytesOf) : t = t' := by
  obtain ⟨r, hr⟩ := h
  obtain ⟨r', hr'⟩ := h'
  exact (t.unique hok hok' (hr.trans hr'.symm)).1

theorem key_unique_at {k k' : Key} (hok : k.Ok rd) (hok' : k'.Ok rd) (h : At b a (keyBytes k))
    (h' : At b a (keyBytes k')) : k = k' := by
  obtain ⟨r, hr⟩ := h
  obtain ⟨r', hr'⟩ := h'
  exact (keyBytes_unique hok hok' (hr.trans hr'.symm)).1

theorem entries_unique_at {es es' : List (Key × Tlv)} (hok : OkEntries rd es)
    (hok' : OkEntries rd es') (hl : es.length = es'.length) (h : At b a (bytesOfEntries es))
    (h' : At b a (bytesOfEntries es')) : es = es' := by
  obtain ⟨r, hr⟩ := h
  obtain ⟨r', hr'⟩ := h'
  rw [okEntries_iff] at hok hok'
  exact (bytesOfEntries_unique (fun e _ => e.2.unique) hok hok' hl (hr.trans hr'.symm)).1

/-- Entries that are spelled alike to the end are the same. -/
theorem bytesOfEntries_injective {es es' : List (Key × Tlv)} (hok : OkEntries rd es)
    (hok' : OkEntries rd es') (h : bytesOfEntries es = bytesOfEntries es') : es = es' := by
  rw [okEntries_iff] at hok hok'
  induction es generalizing es' with
  | nil =>
    cases es' with
    | nil => rfl
    | cons e' es' =>
      have := e'.2.bytesOf_length_pos
      have hlen := congrArg List.length h
      simp only [bytesOfEntries, List.length_nil, List.length_append] at hlen
      omega
  | cons e es ih =>
    cases es' with
    | nil =>
      have := e.2.bytesOf_length_pos
      have hlen := congrArg List.length h
      simp only [bytesOfEntries, List.length_nil, List.length_append] at hlen
      omega
    | cons e' es' =>
      rw [List.forall_mem_cons] at hok hok'
      simp only [bytesOfEntries] at h
      obtain ⟨hk, h1⟩ := keyBytes_unique hok.1.1 hok'.1.1 h
      obtain ⟨ht, h2⟩ := e.2.unique hok.1.2 hok'.1.2 h1
      rw [Prod.ext hk ht, ih hok.2 hok'.2 h2]

/-! ### Trees by their values -/

theorem Tlv.eq_uint_of_value {t : Tlv} {u : UInt64} (h : t.value = .uint u) : t = .uint u := by
  cases t <;> simp_all [value]

theorem Tlv.eq_bytes_of_value {t : Tlv} {b : Bytes} (h : t.value = .bytes b) :
    ∃ l, t = .bytes l b := by
  cases t <;> simp_all [value]

theorem Tlv.eq_map_of_value {t : Tlv} {m : List (String × Value)} (h : t.value = .map m) :
    ∃ n entries, t = .map n entries ∧ m = OrdMap.ofList utf8 (valueEntries entries) := by
  cases t <;> simp_all [value]

/-! ### Keys and entries at an offset -/

/-- A key at an offset: its tag, its length, its text. -/
theorem keyAt_iff {k : Key} : At b a (keyBytes k) ↔ b[a]? = some 0x20 ∧ At b (a + 1) k.len.bytes ∧
    At b (a + 1 + k.len.bytes.length) (utf8 k.text) := by
  rw [keyBytes, At.cons_iff, At.append_iff]
  rfl

theorem keyBytes_length {k : Key} :
    (keyBytes k).length = 1 + k.len.bytes.length + (utf8 k.text).length := by
  simp only [keyBytes, List.length_cons, List.length_append]
  omega

/-- A varint whose first byte is below `0x80` is that byte. -/
theorem Leb.bytes_at {l : Leb} (h : At b a l.bytes) (hx : b[a]? = some x) (hlt : x < 0x80) :
    l.bytes = [x] := by
  have hlen : 0 + 1 = l.bytes.length := (Leb.lt_iff_at h l.isLeb.length_pos hx).1 hlt
  obtain ⟨y, hy⟩ := List.length_eq_one_iff.1 hlen.symm
  rw [hy] at h ⊢
  rw [Option.some.inj (hx.symm.trans h.getElem?)]

theorem u64Varint_of_byte {l : Leb} (h : l.bytes = [x]) (hlt : x < 0x80) :
    u64Varint l = some x.toNat := by
  have hx : x.toNat < 128 := UInt8.lt_iff_toNat_lt.1 hlt
  have hv : l.value = x.toNat := by
    rw [Leb.value, h]
    simp only [lebValue]
    omega
  rw [u64Varint, h, hv, if_pos (by simp), Nat.mod_eq_of_lt (by omega)]

theorem u64Varint_length {l : Leb} {n : Nat} (h : u64Varint l = some n) : l.bytes.length ≤ 10 := by
  unfold u64Varint at h
  split at h
  · assumption
  · cases h

theorem u64Varint_of_two {l : Leb} {y : UInt8} (h : l.bytes = [x, y]) :
    u64Varint l = some (x.toNat % 128 + 128 * (y.toNat % 128)) := by
  have hv : l.value = x.toNat % 128 + 128 * (y.toNat % 128) := by
    rw [Leb.value, h]
    simp only [lebValue]
    omega
  rw [u64Varint, h, hv, if_pos (by simp), Nat.mod_eq_of_lt (by omega)]

/-- A varint whose second byte is below `0x80` is one byte or those two. -/
theorem Leb.bytes_two_at {l : Leb} {y : UInt8} (h : At b a l.bytes) (hx : b[a]? = some x)
    (hy : b[a + 1]? = some y) (hlt : y < 0x80) : l.bytes = [x] ∨ l.bytes = [x, y] := by
  have hpos := l.isLeb.length_pos
  rcases Nat.lt_or_ge 1 l.bytes.length with hlen | hlen
  · have hlen2 : 1 + 1 = l.bytes.length := (Leb.lt_iff_at h hlen hy).1 hlt
    obtain ⟨u, v, huv⟩ := List.length_eq_two.1 hlen2.symm
    rw [huv, At.cons_iff] at h
    obtain rfl := Option.some.inj (hx.symm.trans h.1)
    obtain rfl := Option.some.inj (hy.symm.trans h.2.getElem?)
    exact .inr huv
  · obtain ⟨u, hu⟩ := List.length_eq_one_iff.1 (show l.bytes.length = 1 by omega)
    rw [hu] at h
    obtain rfl := Option.some.inj (hx.symm.trans h.getElem?)
    exact .inl hu

/-- A key whose length is one byte has as many bytes of text. -/
theorem Key.Ok.length_at {k : Key} (hok : k.Ok u64Varint) (h : At b a (keyBytes k))
    (hx : b[a + 1]? = some x) (hlt : x < 0x80) :
    k.len.bytes = [x] ∧ (utf8 k.text).length = x.toNat := by
  have hlen := Leb.bytes_at (keyAt_iff.1 h).2.1 hx hlt
  exact ⟨hlen, Option.some.inj (hok.symm.trans (u64Varint_of_byte hlen hlt))⟩

/-- A byte below `0x80` that is not of the text of a key, and is not followed by the first byte of
it, stands before the key, at its start, or after it. -/
theorem key_clear {k : Key} {p : Nat} {y : UInt8} (h : At b a (keyBytes k)) (hx : b[p]? = some x)
    (hlt : x < 0x80) (hmem : x ∉ utf8 k.text) (hy : (utf8 k.text)[0]? = some y)
    (hnext : b[p + 1]? ≠ some y) : p ≤ a ∨ a + (keyBytes k).length ≤ p := by
  obtain ⟨-, hlen, htext⟩ := keyAt_iff.1 h
  by_contra hin
  rw [keyBytes_length] at hin
  by_cases hp : p < a + 1 + k.len.bytes.length
  · obtain ⟨j, rfl⟩ : ∃ j, p = a + 1 + j := ⟨p - (a + 1), by omega⟩
    have hend := (Leb.lt_iff_at hlen (by omega) hx).1 hlt
    apply hnext
    rw [show a + 1 + j + 1 = a + 1 + k.len.bytes.length + 0 by omega]
    exact htext.get hy
  · obtain ⟨j, rfl⟩ : ∃ j, p = a + 1 + k.len.bytes.length + j :=
      ⟨p - (a + 1 + k.len.bytes.length), by omega⟩
    have hj := List.getElem?_eq_getElem (l := utf8 k.text) (i := j) (by omega)
    obtain rfl := Option.some.inj (hx.symm.trans (htext.get hj))
    exact hmem (List.getElem_mem _)

/-- A tree at an offset has its tag there. -/
theorem Tlv.tag_at {t : Tlv} (h : At b a t.bytesOf) : b[a]? = some t.tag.byte := by
  rw [t.bytesOf_eq] at h
  exact h.getElem?

/-- The entry stands at `a` and ends at `stop`. -/
structure EntryAt (b : Bytes) (a stop : Nat) (e : Key × Tlv) : Prop where
  key : At b a (keyBytes e.1)
  value : At b (a + (keyBytes e.1).length) e.2.bytesOf
  stop_eq : stop = a + (keyBytes e.1).length + e.2.bytesOf.length

theorem entriesAt_cons {e : Key × Tlv} {es : List (Key × Tlv)}
    (h : At b a (bytesOfEntries (e :: es))) : ∃ stop, EntryAt b a stop e ∧
      At b stop (bytesOfEntries es) ∧
      a + (bytesOfEntries (e :: es)).length = stop + (bytesOfEntries es).length := by
  simp only [bytesOfEntries, At.append_iff] at h
  refine ⟨_, ⟨h.1, h.2.1, rfl⟩, h.2.2, ?_⟩
  simp only [bytesOfEntries, List.length_append]
  omega

theorem EntryAt.cons {e : Key × Tlv} {es : List (Key × Tlv)} {stop : Nat} (he : EntryAt b a stop e)
    (hes : At b stop (bytesOfEntries es)) : At b a (bytesOfEntries (e :: es)) := by
  rw [he.stop_eq] at hes
  rw [bytesOfEntries, At.append_iff, At.append_iff]
  exact ⟨he.key, he.value, hes⟩

end Myco.Canonical
