import Myco.Canonical.RendererReads
import Myco.Canonical.Size

/-!
# The fields of a map in TypeScript

What the TypeScript decoder makes of the bytes that the Rust encoder writes for a value
(`decode_wire_ts`), and what `map.get(key)` finds in it if the value is a map of fields with
different names: each of the fields (`mapGet_field`), and nothing else (`mapGet_absent`). The
other way round, what TypeScript writes for such a map is what Rust writes (`Alike.encode`,
`alike_mapOf`).
-/

namespace Myco.Canonical

open Myco.Lib

/-- The value in TypeScript. -/
def tsOf (v : Value) : Ts.Value := v.canonical.tsRead

/-- What is written in Rust is read in TypeScript. -/
theorem decode_wire_ts {v : Value} {b : Bytes} (hwf : v.WF) (h : encode v = .ok b)
    (hmem : b.length ≤ isizeMax) : Ts.decode b = .ok (tsOf v) := by
  have hbuf : b.length < 2 ^ 64 := by simp only [isizeMax] at hmem; omega
  have hfits := fits_of_decode (decode_of_encode hwf h hmem)
  have hb : b = v.wire := Except.ok.inj (h.symm.trans (encode_eq hfits))
  refine (Ts.decode_iff hbuf).2 ⟨v.canonical, ?_, rfl⟩
  rw [hb]
  exact (Value.canonical_spells hwf hfits).py_of_rust hfits

@[simp] theorem tsOf_uint {n : UInt64} : tsOf (.uint n) = .uint n.toNat := rfl

@[simp] theorem tsOf_bytes {b : Bytes} : tsOf (.bytes b) = .bytes b := rfl

theorem tsOf_string {s : String} : tsOf (.string s) = .string (Ts.units (unmarkText s)) := rfl

theorem tsOf_array {vs : List Value} : tsOf (.array vs) = .array (vs.map tsOf) := by
  rw [tsOf, Value.canonical, Tlv.tsRead, Tlv.unmark, Tlv.tsValue, tsValueItems_eq, unmarkItems_eq,
    canonicalItems_eq, List.map_map, List.map_map]
  rfl

/-! ### Fields -/

/-- Setting entries of different names puts them behind those that are there. -/
theorem foldl_mapSet_of_nodup {m es : List (Ts.Str × Ts.Value)}
    (h : ((m ++ es).map Prod.fst).Nodup) :
    es.foldl (fun m e => Ts.mapSet m e.1 e.2) m = m ++ es := by
  induction es generalizing m with
  | nil => rw [List.foldl_nil, List.append_nil]
  | cons e es ih =>
    have hnew : e.1 ∉ m.map Prod.fst := by
      rw [List.map_append, List.nodup_append] at h
      exact fun hm => h.2.2 _ hm _ (List.mem_map_of_mem List.mem_cons_self) rfl
    have hset : Ts.mapSet m e.1 e.2 = m ++ [e] := by
      unfold Ts.mapSet
      split
      · rename_i hk
        exact absurd (by simpa using hk) hnew
      · rfl
    rw [List.foldl_cons, hset, ih (by simpa using h), List.append_assoc, List.singleton_append]

/-- The fields in TypeScript. -/
def tsFields (es : List (String × Value)) : List (Ts.Str × Ts.Value) :=
  es.map fun e => (Ts.units e.1, tsOf e.2)

/-- Different names, none of which begins with a byte order mark. -/
structure Named (es : List (String × Value)) : Prop where
  nodup : (es.map Prod.fst).Nodup
  unmarked : ∀ e ∈ es, ¬ startsWith byteOrderMark e.1

theorem Named.nodup_ts {es : List (String × Value)} (h : Named es) :
    ((tsFields es).map Prod.fst).Nodup := by
  have hkeys : (tsFields es).map Prod.fst = (es.map Prod.fst).map Ts.units := by
    rw [tsFields, List.map_map, List.map_map]
    rfl
  rw [hkeys]
  exact h.nodup.map Ts.units_injective

theorem tsOf_mapOf {es : List (String × Value)} (h : Named es) :
    ∃ fs, tsOf (mapOf es) = .map fs ∧ fs.Perm (tsFields es) := by
  have hentry : ∀ e ∈ es, (Ts.units (unmarkText (Key.ofString e.1).text), e.2.canonical.tsRead) =
      (Ts.units e.1, tsOf e.2) := fun e he => by
    rw [show (Key.ofString e.1).text = e.1 from rfl, unmarkText_of_not (h.unmarked e he)]
    rfl
  have hperm : (tsValueEntries (unmarkEntries (sortEntries
      (canonicalEntries (OrdMap.ofList utf8 es))))).Perm (tsFields es) := by
    rw [tsValueEntries_eq, unmarkEntries_eq, List.map_map]
    refine ((List.perm_insertionSort _ _).map _).trans ?_
    rw [canonicalEntries_eq, List.map_map]
    refine ((OrdMap.ofList_perm utf8_injective h.nodup).map _).trans ?_
    exact (List.map_congr_left hentry).symm ▸ List.Perm.refl _
  refine ⟨_, ?_, hperm⟩
  have hnodup := ((hperm.map Prod.fst).nodup_iff).2 h.nodup_ts
  rw [tsOf, mapOf, Value.canonical, Tlv.tsRead, Tlv.unmark, Tlv.tsValue]
  exact congrArg Ts.Value.map (foldl_mapSet_of_nodup (m := []) hnodup)

theorem mapGet_field {es : List (String × Value)} {fs : List (Ts.Str × Ts.Value)} (h : Named es)
    (hp : fs.Perm (tsFields es)) {key : String} {v : Value} (he : (key, v) ∈ es) :
    Ts.mapGet fs key = some (tsOf v) := by
  have hmem : (Ts.units key, tsOf v) ∈ fs := hp.mem_iff.2 (List.mem_map.2 ⟨(key, v), he, rfl⟩)
  have hnodup := ((hp.map Prod.fst).nodup_iff).2 h.nodup_ts
  obtain ⟨as, bs, rfl⟩ := List.append_of_mem hmem
  have hbefore : ∀ p ∈ as, ¬ Ts.units key == p.1 := by
    intro p hpa hbeq
    rw [List.map_append, List.map_cons] at hnodup
    refine (List.nodup_append.1 hnodup).2.2 _ (List.mem_map_of_mem hpa) _ List.mem_cons_self ?_
    exact (beq_iff_eq.1 hbeq).symm
  rw [Ts.mapGet, List.lookup_eq_some_iff]
  exact ⟨as, bs, rfl, by simpa using hbefore⟩

theorem mapGet_absent {es : List (String × Value)} {fs : List (Ts.Str × Ts.Value)}
    (hp : fs.Perm (tsFields es)) {key : String} (hk : key ∉ es.map Prod.fst) :
    Ts.mapGet fs key = none := by
  rw [Ts.mapGet, List.lookup_eq_none_iff]
  intro p hpm
  obtain ⟨e, he, rfl⟩ := List.mem_map.1 (hp.mem_iff.1 hpm)
  have hne : key ≠ e.1 := fun h => hk (h ▸ List.mem_map_of_mem he)
  simpa using fun h => hne (Ts.units_injective h)

/-! ### The same value in both -/

/-- A TypeScript value that means what the Rust value means. -/
structure Alike (v : Value) (j : Ts.Value) : Prop where
  denote : j.denote = v.denote
  distinct : j.Distinct

theorem Alike.encode {v : Value} {j : Ts.Value} (h : Alike v j) (hwf : v.WF) :
    Ts.encode j = .ok v.wire :=
  Ts.encode_eq_wire hwf h.distinct h.denote

theorem alike_uint {n : UInt64} : Alike (.uint n) (.uint n.toNat) := ⟨rfl, trivial⟩

theorem alike_bytes {b : Bytes} : Alike (.bytes b) (.bytes b) := ⟨rfl, trivial⟩

theorem alike_string {s : String} : Alike (.string s) (.string (Ts.units s)) :=
  ⟨congrArg Tree.string Ts.ofUnits_units, trivial⟩

theorem denoteEntries_get {es : List (String × Value)} {p : List CodePoint} :
    denoteEntries es p = OrdMap.get p (es.map fun e => (codePoints e.1, e.2.denote)) := by
  induction es with
  | nil => rfl
  | cons e es ih => rw [denoteEntries, ih, List.map_cons, OrdMap.get_cons]

/-- Maps of the same fields, in whatever order. -/
theorem alike_mapOf {es : List (String × Value)} {js : List (Ts.Str × Ts.Value)}
    (hes : (es.map Prod.fst).Nodup)
    (h : List.Forall₂ (fun e j => j.1 = Ts.units e.1 ∧ Alike e.2 j.2) es js) :
    Alike (mapOf es) (.map js) := by
  have hkeys : js.map Prod.fst = (es.map Prod.fst).map Ts.units := by
    induction h with
    | nil => rfl
    | cons hj _ ih => rw [List.map_cons, hj.1, ih (List.nodup_cons.1 hes).2, List.map_cons,
        List.map_cons]
  have hmeaning : (js.map fun j => (ofUnits j.1, j.2.denote)) =
      es.map fun e => (codePoints e.1, e.2.denote) := by
    clear hkeys hes
    induction h with
    | nil => rfl
    | cons hj _ ih => rw [List.map_cons, hj.1, hj.2.denote, ih, Ts.ofUnits_units, List.map_cons]
  have hdistinct : ∀ j ∈ js, j.2.Distinct := by
    clear hkeys hmeaning hes
    induction h with
    | nil => simp
    | cons hj _ ih => exact List.forall_mem_cons.2 ⟨hj.2.distinct, ih⟩
  have hnames : ((es.map fun e => (codePoints e.1, e.2.denote)).map Prod.fst).Nodup := by
    have := hes.map codePoints_injective
    rwa [List.map_map] at this ⊢
  refine ⟨congrArg Tree.map (funext fun p => ?_), hkeys ▸ hes.map Ts.units_injective,
    Ts.distinctEntries_iff.2 hdistinct⟩
  have hperm : ((OrdMap.ofList utf8 es).map fun e => (codePoints e.1, e.2.denote)).Perm _ :=
    (OrdMap.ofList_perm utf8_injective hes).map _
  rw [Ts.denoteEntries_eq, denoteEntries_get, hmeaning]
  exact OrdMap.get_eq_of_perm hperm.symm hnames

end Myco.Canonical
