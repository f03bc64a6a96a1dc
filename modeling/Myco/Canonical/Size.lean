import Myco.Canonical.MapGet
import Myco.Canonical.RoundTrip

/-!
# What an encoding says about its value

The encoder answers every value, and no length in the value exceeds the length of the answer. So
an encoding that fits in memory is decoded back (`decode_of_encode`), and no two values share one.
-/

namespace Myco.Canonical

open Myco.Lib

/-- Every length in `v` is at most `n`. -/
def Value.Within (v : Value) (n : Nat) : Prop := v.canonical.Every (fun l => l.value ≤ n)

theorem Value.Within.mono {v : Value} {m n : Nat} (h : v.Within m) (hmn : m ≤ n) : v.Within n :=
  h.imp fun _ hl => hl.trans hmn

theorem encodeItems_within {vs : List Value}
    (h : ∀ v ∈ vs, ∃ bs, encodeInto v = .ok bs ∧ 0 < bs.length ∧ v.Within bs.length) :
    ∃ body, encodeItems vs = .ok body ∧ vs.length ≤ body.length ∧
      ∀ v ∈ vs, v.Within body.length := by
  induction vs with
  | nil => exact ⟨[], rfl, le_refl _, fun v hv => by cases hv⟩
  | cons v vs ih =>
    rw [List.forall_mem_cons] at h
    obtain ⟨⟨bs, h1, h2, h3⟩, hvs⟩ := h
    obtain ⟨body, h4, h5, h6⟩ := ih hvs
    refine ⟨bs ++ body, by rw [encodeItems, h1, h4]; rfl, ?_, List.forall_mem_cons.2 ⟨?_, ?_⟩⟩
    · simp only [List.length_append, List.length_cons]
      omega
    · exact h3.mono (by simp)
    · exact fun w hw => (h6 w hw).mono (by simp)

theorem concatKeyed_within {ε : Type} {ks : List (Bytes × Except ε Bytes)}
    (h : ∀ e ∈ ks, 0 < e.1.length ∧ ∃ bs, e.2 = .ok bs) :
    ∃ body, concatKeyed ks = .ok body ∧ ks.length ≤ body.length ∧
      ∀ e ∈ ks, e.1.length ≤ body.length ∧ ∀ bs, e.2 = .ok bs → bs.length ≤ body.length := by
  induction ks with
  | nil => exact ⟨[], rfl, le_refl _, fun e he => by cases he⟩
  | cons e ks ih =>
    obtain ⟨key, val⟩ := e
    rw [List.forall_mem_cons] at h
    obtain ⟨⟨hpos, bs, rfl⟩, hks⟩ := h
    obtain ⟨body, h1, h2, h3⟩ := ih hks
    refine ⟨key ++ (bs ++ body), by rw [concatKeyed, ok_bind, h1]; rfl, ?_, ?_⟩
    · simp only [List.length_append, List.length_cons] at hpos ⊢
      omega
    · refine List.forall_mem_cons.2 ⟨⟨by simp, fun bs' hb => ?_⟩, fun d hd => ?_⟩
      · cases hb
        simp only [List.length_append]
        omega
      · obtain ⟨h4, h5⟩ := h3 d hd
        simp only [List.length_append]
        exact ⟨by omega, fun bs' hb => by have := h5 bs' hb; omega⟩

theorem encodeEntries_eq {es : List (String × Value)} :
    encodeEntries es = es.map (fun e => (encodeString e.1, encodeInto e.2)) := by
  induction es with
  | nil => rfl
  | cons e es ih => rw [encodeEntries, ih, List.map_cons]

theorem encodeEntries_within {es : List (String × Value)}
    (h : ∀ e ∈ es, ∃ bs, encodeInto e.2 = .ok bs ∧ 0 < bs.length ∧ e.2.Within bs.length) :
    ∃ body, concatKeyed (sortKeyed (encodeEntries es)) = .ok body ∧ es.length ≤ body.length ∧
      ∀ e ∈ es, (utf8 e.1).length ≤ body.length ∧ e.2.Within body.length := by
  have hmem : ∀ k, k ∈ sortKeyed (encodeEntries es) ↔
      k ∈ es.map (fun e => (encodeString e.1, encodeInto e.2)) := by
    intro k
    rw [encodeEntries_eq]
    exact (List.perm_insertionSort _ _).mem_iff
  have hlen : (sortKeyed (encodeEntries es)).length = es.length := by
    rw [encodeEntries_eq]
    exact (List.perm_insertionSort _ _).length_eq.trans (List.length_map _)
  have hks : ∀ k ∈ sortKeyed (encodeEntries es), 0 < k.1.length ∧ ∃ bs, k.2 = .ok bs := by
    intro k hk
    obtain ⟨e, he, rfl⟩ := List.mem_map.1 ((hmem k).1 hk)
    obtain ⟨bs, h1, -, -⟩ := h e he
    exact ⟨by simp [encodeString], bs, h1⟩
  obtain ⟨body, h1, h2, h3⟩ := concatKeyed_within hks
  refine ⟨body, h1, hlen ▸ h2, fun e he => ?_⟩
  obtain ⟨hkey, hval⟩ := h3 _ ((hmem _).2 (List.mem_map_of_mem he))
  obtain ⟨bs, h4, -, h5⟩ := h e he
  refine ⟨?_, h5.mono (hval bs h4)⟩
  simp only [encodeString, List.length_cons, List.length_append] at hkey
  omega

/-- The encoder answers every value, with at least as many bytes as any length in it says. -/
theorem encode_within {v : Value} :
    ∃ bs, encodeInto v = .ok bs ∧ 0 < bs.length ∧ v.Within bs.length := by
  induction v using Value.induction with
  | string s =>
    refine ⟨_, rfl, by simp [encodeString], ?_⟩
    simp only [Value.Within, Value.canonical, Tlv.Every, Leb.value_ofNat, encodeString,
      List.length_cons, List.length_append]
    omega
  | bytes b =>
    refine ⟨_, rfl, by simp, ?_⟩
    simp only [Value.Within, Value.canonical, Tlv.Every, Leb.value_ofNat, List.length_cons,
      List.length_append]
    omega
  | array items ih =>
    obtain ⟨body, h1, h2, h3⟩ := encodeItems_within ih
    refine ⟨_, by rw [encodeInto, h1]; rfl, by simp, ?_⟩
    simp only [Value.Within, Value.canonical, Tlv.Every, everyItems_iff, canonicalItems_eq,
      List.forall_mem_map, Leb.value_ofNat, List.length_cons, List.length_append]
    exact ⟨by omega, fun v hv => (h3 v hv).mono (by omega)⟩
  | map entries ih =>
    obtain ⟨body, h1, h2, h3⟩ := encodeEntries_within ih
    refine ⟨_, by rw [encodeInto, h1]; rfl, by simp, ?_⟩
    simp only [Value.Within, Value.canonical, Tlv.Every, everyEntries_iff, mem_sortEntries,
      canonicalEntries_eq, List.forall_mem_map, Leb.value_ofNat, List.length_cons,
      List.length_append, Key.ofString]
    refine ⟨by omega, fun e he => ?_⟩
    obtain ⟨h4, h5⟩ := h3 e he
    exact ⟨by omega, h5.mono (by omega)⟩
  | _ => exact ⟨_, rfl, by simp, trivial⟩

theorem encode_total (v : Value) : ∃ bs, encode v = .ok bs := by
  obtain ⟨bs, h, -, -⟩ := encode_within (v := v)
  exact ⟨bs, h⟩

/-- The bytes of a value that fits in memory are decoded back. -/
theorem decode_of_encode {v : Value} {bs : Bytes} (hwf : v.WF) (h : encode v = .ok bs)
    (hmem : bs.length ≤ isizeMax) : decode bs = .ok v := by
  obtain ⟨bs', h1, -, hw⟩ := encode_within (v := v)
  cases Except.ok.inj (h1.symm.trans h)
  have hfits : v.canonical.Every FitsU64 := hw.imp fun l hl => by
    simp only [FitsU64, isizeMax] at hmem ⊢
    omega
  cases Except.ok.inj ((encode_eq hfits).symm.trans h)
  exact decode_wire hwf hfits hmem

/-! ### Lengths that a varint holds -/

/-- Of values whose lengths fit into a varint no two have the same encoding. -/
theorem encode_inj {v w : Value} (hv : v.WF) (hw : w.WF) (fv : v.canonical.Every FitsU64)
    (fw : w.canonical.Every FitsU64) (h : encode v = encode w) : v = w := by
  rw [encode_eq fv, encode_eq fw] at h
  have hs := Value.canonical_spells hv fv
  rw [Except.ok.inj h] at hs
  rw [← Value.value_canonical hv, hs.unique (Value.canonical_spells hw fw),
    Value.value_canonical hw]

theorem mapOf_fits {es : List (String × Value)} (hl : es.length < 2 ^ 64)
    (h : ∀ e ∈ es, (utf8 e.1).length < 2 ^ 64 ∧ e.2.canonical.Every FitsU64) :
    (mapOf es).canonical.Every FitsU64 := by
  have hle : (OrdMap.ofList utf8 es).length ≤ es.length := OrdMap.ofList_length_le
  simp only [mapOf, Value.canonical, Tlv.Every, everyEntries_iff, mem_sortEntries,
    canonicalEntries_eq, List.forall_mem_map, FitsU64, Leb.value_ofNat, Key.ofString]
  exact ⟨by omega, fun e he => h e (OrdMap.mem_of_mem_ofList he)⟩

/-- Every length in a decoded value fits into a varint. -/
theorem fits_of_decode {b : Bytes} {v : Value} (h : decode b = .ok v) :
    v.canonical.Every FitsU64 := by
  obtain ⟨t, ht, rfl⟩ := spells_of_decode h
  exact ht.2.value_fits

theorem fits_of_get {m : List (String × Value)} {k : String} {v : Value}
    (hm : (Value.map m).canonical.Every FitsU64) (h : OrdMap.get k m = some v) :
    v.canonical.Every FitsU64 := by
  simp only [Value.canonical, Tlv.Every, everyEntries_iff, mem_sortEntries, canonicalEntries_eq,
    List.forall_mem_map] at hm
  exact (hm.2 _ (OrdMap.mem_of_get h)).2

theorem string_fits {s : String} (h : (Value.string s).canonical.Every FitsU64) :
    (utf8 s).length < 2 ^ 64 := by
  simpa [Value.canonical, Tlv.Every, FitsU64, Leb.value_ofNat] using h

end Myco.Canonical
