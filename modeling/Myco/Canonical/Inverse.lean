import Mathlib.Algebra.Order.BigOperators.Group.List
import Myco.Canonical.RendererReads

/-!
# Whether the TypeScript codec inverts itself

`encode` of `canonical_bytes.ts` against `decode` of `renderer.ts`, both ways. A value comes back
if and only if it can be encoded and none of its texts begins with a byte order mark
(`Ts.roundTrips_iff`); bytes come back if and only if they also spell every length in shortest
form (`Ts.reencode_iff`).
-/

namespace Myco.Canonical

open Myco.Lib

/-! ### Trees without marks -/

mutual

/-- No text of the tree begins with a byte order mark. -/
def Tlv.Unmarked : Tlv → Prop
  | .string _ s => ¬ startsWith byteOrderMark s
  | .array _ items => UnmarkedItems items
  | .map _ entries => UnmarkedEntries entries
  | _ => True

def UnmarkedItems : List Tlv → Prop
  | [] => True
  | t :: ts => t.Unmarked ∧ UnmarkedItems ts

def UnmarkedEntries : List (Key × Tlv) → Prop
  | [] => True
  | (k, t) :: es => ¬ startsWith byteOrderMark k.text ∧ t.Unmarked ∧ UnmarkedEntries es

end

theorem unmarkedItems_iff {ts : List Tlv} : UnmarkedItems ts ↔ ∀ t ∈ ts, t.Unmarked := by
  induction ts with
  | nil => simp [UnmarkedItems]
  | cons t ts ih => simp [UnmarkedItems, ih]

theorem unmarkedEntries_iff {es : List (Key × Tlv)} : UnmarkedEntries es ↔
    ∀ e ∈ es, ¬ startsWith byteOrderMark e.1.text ∧ e.2.Unmarked := by
  induction es with
  | nil => simp [UnmarkedEntries]
  | cons e es ih => simp [UnmarkedEntries, ih, and_assoc]

theorem Tlv.unmark_of_unmarked {t : Tlv} (h : t.Unmarked) : t.unmark = t := by
  induction t using Tlv.induction with
  | string l s => rw [unmark, unmarkText_of_not h]
  | array n items ih =>
    simp only [Unmarked, unmarkedItems_iff] at h
    rw [unmark, unmarkItems_eq]
    congr 1
    exact (List.map_congr_left fun t ht => ih t ht (h t ht)).trans (List.map_id items)
  | map n entries ih =>
    simp only [Unmarked, unmarkedEntries_iff] at h
    rw [unmark, unmarkEntries_eq]
    congr 1
    refine (List.map_congr_left fun e he => ?_).trans (List.map_id entries)
    obtain ⟨⟨len, text⟩, t⟩ := e
    simp only [unmarkText_of_not (h _ he).1, ih _ he (h _ he).2, id]
  | _ => rfl

/-- A text that loses its mark is longer by it. -/
theorem length_of_marked {s : String} (h : startsWith byteOrderMark s) :
    s.toList.length = (unmarkText s).toList.length + 1 := by
  obtain ⟨r, rfl⟩ := eq_append_of_startsWith h
  rw [unmarkText_append]
  simp [byteOrderMark]

/-- Taking the marks off a set of texts gives the set only if there is none to take off: a marked
text would be another one without its mark, which would be marked and longer. -/
theorem unmarked_of_same_texts {ss : List String} (h : ∀ s ∈ ss, ∃ s' ∈ ss, s = unmarkText s') :
    ∀ s ∈ ss, ¬ startsWith byteOrderMark s := by
  suffices hlong : ∀ j, ∀ s ∈ ss, startsWith byteOrderMark s →
      (ss.map fun s => s.toList.length).sum < s.toList.length + j → False by
    intro s hs hmark
    exact hlong ((ss.map fun s => s.toList.length).sum + 1) s hs hmark (by omega)
  intro j
  induction j with
  | zero =>
    intro s hs _ hlt
    have hle : s.toList.length ≤ (ss.map fun s => s.toList.length).sum :=
      List.le_sum_of_mem (List.mem_map_of_mem hs)
    omega
  | succ j ih =>
    intro s hs hmark hlt
    obtain ⟨s', hs', heq⟩ := h s hs
    by_cases hmark' : startsWith byteOrderMark s'
    · have hlen := length_of_marked hmark'
      rw [← heq] at hlen
      exact ih s' hs' hmark' (by omega)
    · rw [unmarkText_of_not hmark'] at heq
      exact hmark' (heq ▸ hmark)

theorem exists_get_ofList {α : Type} {es : List (String × α)} {k : String} :
    (∃ v, OrdMap.get k (OrdMap.ofList utf8 es) = some v) ↔ k ∈ es.map Prod.fst := by
  rw [OrdMap.get_ofList utf8_injective, ← Option.isSome_iff_exists, ← Option.ne_none_iff_isSome,
    Ne, OrdMap.get_eq_none_iff]
  simp only [List.mem_reverse, List.mem_map, not_forall, not_not]
  exact ⟨fun ⟨e, he, hk⟩ => ⟨e, he, hk.symm⟩, fun ⟨e, he, hk⟩ => ⟨e, he, hk.symm⟩⟩

/-- Taking its marks off changes the value of a tree that has one. -/
theorem Tlv.unmarked_of_value {t : Tlv} (hok : t.Ok u64Varint) (hs : t.Every Shortest)
    (h : t.unmark.value = t.value) : t.Unmarked := by
  induction t using Tlv.induction with
  | string l s =>
    intro hmark
    have hlen := length_of_marked hmark
    simp only [unmark, value, Value.string.injEq] at h
    rw [h] at hlen
    omega
  | array n items ih =>
    simp only [Ok, okItems_iff] at hok
    simp only [Every, everyItems_iff] at hs
    simp only [unmark, value, valueItems_eq, unmarkItems_eq, List.map_map, Value.array.injEq,
      List.map_inj_left] at h
    exact unmarkedItems_iff.2 fun t ht => ih t ht (hok.2 t ht) (hs.2 t ht) (h t ht)
  | map n entries ih =>
    simp only [Ok, okEntries_iff] at hok
    simp only [Every, everyEntries_iff] at hs
    simp only [unmark, value, Value.map.injEq] at h
    have hkey : ∀ e ∈ entries, Key.ofString e.1.text = e.1 := fun e he =>
      Key.ofString_text (hs.2 e he).1 (hok.2.2 e he).1
    have hnodup := valueEntries_nodup hok.2.1 hkey
    have htexts : ∀ e ∈ entries, ¬ startsWith byteOrderMark e.1.text := by
      have hsame := @unmarked_of_same_texts (entries.map fun e => e.1.text) ?_
      · exact fun e he => hsame _ (List.mem_map_of_mem he)
      · intro s hmem
        have hget : ∃ v, OrdMap.get s (OrdMap.ofList utf8 (valueEntries entries)) = some v := by
          rw [exists_get_ofList, valueEntries_eq, List.map_map]
          exact hmem
        rw [← h, exists_get_ofList, valueEntries_eq, unmarkEntries_eq, List.map_map,
          List.map_map] at hget
        obtain ⟨e, he, rfl⟩ := List.mem_map.1 hget
        exact ⟨e.1.text, List.mem_map_of_mem he, rfl⟩
    refine unmarkedEntries_iff.2 fun e he =>
      ⟨htexts e he, ih e he (hok.2.2 e he).2 (hs.2 e he).2 ?_⟩
    -- no key changes, so the entry of this one stands in both maps
    have hfst : (valueEntries (unmarkEntries entries)).map Prod.fst =
        (valueEntries entries).map Prod.fst := by
      rw [valueEntries_eq, valueEntries_eq, unmarkEntries_eq, List.map_map, List.map_map,
        List.map_map]
      exact List.map_congr_left fun d hd => unmarkText_of_not (htexts d hd)
    have hget : ∀ es : List (String × Value), (es.map Prod.fst).Nodup → ∀ d ∈ es,
        OrdMap.get d.1 (OrdMap.ofList utf8 es) = some d.2 := by
      intro es hes d hd
      have hperm := OrdMap.ofList_perm utf8_injective hes
      exact OrdMap.ofList_sorted.get_of_mem (hperm.mem_iff.2 hd)
    have h1 := hget _ hnodup (e.1.text, e.2.value) (by
      rw [valueEntries_eq]
      exact List.mem_map_of_mem he)
    have h2 := hget _ (hfst ▸ hnodup) (e.1.text, e.2.unmark.value) (by
      rw [valueEntries_eq, unmarkEntries_eq, List.map_map]
      refine List.mem_map.2 ⟨e, he, ?_⟩
      simp only [Function.comp_apply, unmarkText_of_not (htexts e he)])
    rw [h] at h2
    exact Option.some.inj (h2.symm.trans h1)
  | _ => trivial

namespace Ts

/-! ### Bytes that come back -/

/-- The longest a typed array can be. -/
def maxArrayLength : Nat := 2 ^ 53 - 1

theorem le_isizeMax {n : Nat} (h : n ≤ maxArrayLength) : n ≤ isizeMax := by
  simp only [maxArrayLength, isizeMax] at h ⊢
  omega

/-- Every length is spelled in shortest form, and no text begins with a byte order mark. -/
def ReviewSpelling (b : Bytes) : Prop :=
  ∃ t, Spells u64Varint b t ∧ t.Every Shortest ∧ t.Unmarked

/-- Encoding what was decoded gives the bytes back if and only if they are spelled so. -/
theorem reencode_iff {b : Bytes} {v : Value} (hb : b.length ≤ maxArrayLength)
    (h : decode b = .ok v) : encode v = .ok b ↔ ReviewSpelling b := by
  have hmem := le_isizeMax hb
  obtain ⟨t, hpy, rfl⟩ := exists_tree_of_decode h
  have ht := hpy.rust_of_py (hpy.fits_of_py hmem)
  rw [encode_tsRead, Except.ok.injEq]
  constructor
  · intro hwire
    have hfits := Value.canonical_fits t.unmark.value_wf (hwire ▸ hmem)
    have hcanon := Value.canonical_spells t.unmark.value_wf hfits
    rw [hwire] at hcanon
    have heq : t = t.unmark.value.canonical := ht.unique hcanon
    have hshort : t.Every Shortest := by
      rw [heq]
      exact Value.canonical_shortest hfits
    have hvalue : t.unmark.value = t.value := by
      conv_rhs => rw [heq]
      exact (Value.value_canonical t.unmark.value_wf).symm
    exact ⟨t, ht, hshort, Tlv.unmarked_of_value ht.2 hshort hvalue⟩
  · rintro ⟨t', ht', hshort, hmark⟩
    obtain rfl := ht'.unique ht
    rw [Tlv.unmark_of_unmarked hmark, Value.wire, Tlv.canonical_value ht.2 hshort, ht.1]

/-! ### Values -/

/-- Induction over a value, through the items of its arrays and the entries of its maps. -/
theorem Value.induction {P : Value → Prop} (null : P .null) (bool : ∀ b, P (.bool b))
    (int : ∀ i, P (.int i)) (uint : ∀ u, P (.uint u)) (string : ∀ s, P (.string s))
    (bytes : ∀ b, P (.bytes b)) (array : ∀ items, (∀ v ∈ items, P v) → P (.array items))
    (map : ∀ entries, (∀ e ∈ entries, P e.2) → P (.map entries))
    (timestamp : ∀ ts, P (.timestamp ts)) (hash : ∀ h, P (.hash h)) (v : Value) : P v :=
  Value.rec (motive_1 := P) (motive_2 := fun vs => ∀ v ∈ vs, P v)
    (motive_3 := fun es => ∀ e ∈ es, P e.2) (motive_4 := fun e => P e.2)
    null bool int uint string bytes array map timestamp hash
    (fun v hv => by cases hv) (fun _ _ h1 h2 => List.forall_mem_cons.2 ⟨h1, h2⟩)
    (fun e he => by cases he) (fun _ _ h1 h2 => List.forall_mem_cons.2 ⟨h1, h2⟩)
    (fun _ _ h => h) v

/-- `s.isWellFormed()`: no surrogate without its partner. -/
def IsWellFormed (s : Str) : Prop := ∃ text, ofUnits s = codePoints text

section

variable (text : Str → Prop) (leaf : Value → Prop)

mutual

/-- `text` holds of every string and key of the value, and `leaf` of everything in it that has no
parts. -/
def Value.Every : Value → Prop
  | .string s => text s
  | .array items => EveryItems items
  | .map entries => EveryEntries entries
  | v => leaf v

def EveryItems : List Value → Prop
  | [] => True
  | v :: vs => v.Every ∧ EveryItems vs

def EveryEntries : List (Str × Value) → Prop
  | [] => True
  | (k, v) :: es => text k ∧ v.Every ∧ EveryEntries es

end

end

variable {text text' : Str → Prop} {leaf : Value → Prop}

theorem everyItems_iff {vs : List Value} :
    EveryItems text leaf vs ↔ ∀ v ∈ vs, v.Every text leaf := by
  induction vs with
  | nil => simp [EveryItems]
  | cons v vs ih => simp [EveryItems, ih]

theorem everyEntries_iff {es : List (Str × Value)} :
    EveryEntries text leaf es ↔ ∀ e ∈ es, text e.1 ∧ e.2.Every text leaf := by
  induction es with
  | nil => simp [EveryEntries]
  | cons e es ih => simp [EveryEntries, ih, and_assoc]

/-- Every string is well formed. -/
def Value.WellFormed : Value → Prop := Value.Every IsWellFormed fun _ => True

/-- The value fits the types of the format: `i64`, `u64` and a hash of 32 bytes. -/
def Value.Encodable : Value → Prop := Value.Every (fun _ => True) fun
  | .int n => -2 ^ 63 ≤ n ∧ n ≤ 2 ^ 63 - 1
  | .uint n => 0 ≤ n ∧ n ≤ 2 ^ 64 - 1
  | .timestamp n => -2 ^ 63 ≤ n ∧ n ≤ 2 ^ 63 - 1
  | .hash h => h.length = 32
  | _ => True

/-- No string begins with U+FEFF. -/
def Value.Unmarked : Value → Prop := Value.Every (fun s => s.head? ≠ some 0xFEFF) fun _ => True

/-! ### The Rust value of a value -/

mutual

def Value.rust : Value → Canonical.Value
  | .null => .null
  | .bool b => .bool b
  | .int n => .int (.ofInt n)
  | .uint n => .uint (.ofNat n.toNat)
  | .string s => .string (usvString s)
  | .bytes b => .bytes b
  | .array items => .array (rustItems items)
  | .map entries => .map (OrdMap.ofList utf8 (rustEntries entries))
  | .timestamp n => .timestamp (.ofInt n)
  | .hash h => if h' : h.length = 32 then .hash ⟨h, h'⟩ else .null

def rustItems : List Value → List Canonical.Value
  | [] => []
  | v :: vs => v.rust :: rustItems vs

def rustEntries : List (Str × Value) → List (String × Canonical.Value)
  | [] => []
  | (k, v) :: es => (usvString k, v.rust) :: rustEntries es

end

theorem rustItems_eq {vs : List Value} : rustItems vs = vs.map Value.rust := by
  induction vs with
  | nil => rfl
  | cons v vs ih => rw [rustItems, ih, List.map_cons]

theorem rustEntries_eq {es : List (Str × Value)} :
    rustEntries es = es.map fun e => (usvString e.1, e.2.rust) := by
  induction es with
  | nil => rfl
  | cons e es ih => rw [rustEntries, ih, List.map_cons]

theorem ofUnits_of_wellFormed {s : Str} (h : IsWellFormed s) :
    ofUnits s = codePoints (usvString s) := by
  obtain ⟨text, htext⟩ := h
  rw [usvString_eq htext, htext]

theorem usvString_inj {s s' : Str} (h : IsWellFormed s) (h' : IsWellFormed s')
    (heq : usvString s = usvString s') : s = s' := by
  refine ofUnits_injective ?_
  rw [ofUnits_of_wellFormed h, ofUnits_of_wellFormed h', heq]

theorem rustEntries_nodup {es : List (Str × Value)} (hn : (es.map Prod.fst).Nodup)
    (hw : ∀ e ∈ es, IsWellFormed e.1) : ((rustEntries es).map Prod.fst).Nodup := by
  rw [rustEntries_eq, List.map_map, List.Nodup, List.pairwise_map]
  rw [List.Nodup, List.pairwise_map] at hn
  exact hn.imp_of_mem fun ha hb hne heq => hne (usvString_inj (hw _ ha) (hw _ hb) heq)

theorem Value.rust_wf {v : Value} : v.rust.WF := by
  induction v using Value.induction with
  | array items ih =>
    simpa only [rust, Canonical.Value.WF, wfItems_iff, rustItems_eq, List.forall_mem_map] using ih
  | map entries ih =>
    simp only [rust, Canonical.Value.WF, wfEntries_iff]
    refine ⟨OrdMap.ofList_sorted, fun e he => ?_⟩
    have hmem := OrdMap.mem_of_mem_ofList he
    rw [rustEntries_eq] at hmem
    obtain ⟨d, hd, rfl⟩ := List.mem_map.1 hmem
    exact ih d hd
  | hash h =>
    rw [rust]
    split <;> trivial
  | _ => trivial

theorem rustDenoteEntries_eq {es : List (String × Canonical.Value)} {p : List CodePoint} :
    Canonical.denoteEntries es p = OrdMap.get p (es.map fun e => (codePoints e.1, e.2.denote)) := by
  induction es with
  | nil => rfl
  | cons e es ih => rw [Canonical.denoteEntries, ih, List.map_cons, OrdMap.get_cons]

/-- The Rust value means what the value means. -/
theorem Value.denote_rust {v : Value} (hw : v.WellFormed) (he : v.Encodable) (hd : v.Distinct) :
    v.rust.denote = v.denote := by
  induction v using Value.induction with
  | int n =>
    rw [rust, Canonical.Value.denote, denote, Int64.toInt_ofInt_of_le] <;>
      simp only [Encodable, Every] at he <;> omega
  | uint n =>
    simp only [Encodable, Every] at he
    rw [rust, Canonical.Value.denote, denote, UInt64.toNat_ofNat_of_lt' (by simp; omega)]
    congr 1
    omega
  | string s => rw [rust, Canonical.Value.denote, denote, ofUnits_of_wellFormed hw]
  | array items ih =>
    simp only [WellFormed, Encodable, Every, everyItems_iff] at hw he
    simp only [Distinct, distinctItems_iff] at hd
    rw [rust, Canonical.Value.denote, denote]
    congr 1
    induction items with
    | nil => rfl
    | cons v vs ihvs =>
      rw [List.forall_mem_cons] at ih hw he hd
      rw [rustItems, Canonical.denoteItems, denoteItems, ih.1 hw.1 he.1 hd.1,
        ihvs ih.2 hw.2 he.2 hd.2]
  | map es ih =>
    simp only [WellFormed, Encodable, Every, everyEntries_iff] at hw he
    simp only [Distinct, distinctEntries_iff] at hd
    have hnodup := rustEntries_nodup hd.1 fun e hm => (hw e hm).1
    have hperm := (OrdMap.ofList_perm utf8_injective hnodup).map
      fun e : String × Canonical.Value => (codePoints e.1, e.2.denote)
    have hsame : (rustEntries es).map (fun e => (codePoints e.1, e.2.denote)) =
        es.map fun e => (ofUnits e.1, e.2.denote) := by
      rw [rustEntries_eq, List.map_map]
      refine List.map_congr_left fun e hm => ?_
      simp only [Function.comp_apply, ← ofUnits_of_wellFormed (hw e hm).1,
        ih e hm (hw e hm).2 (he e hm).2 (hd.2 e hm)]
    rw [hsame] at hperm
    rw [rust, Canonical.Value.denote, denote]
    congr 1
    funext p
    rw [rustDenoteEntries_eq, denoteEntries_eq]
    refine (OrdMap.get_eq_of_perm hperm.symm ?_).symm
    rw [List.map_map]
    have hinj := hd.1.map ofUnits_injective
    rwa [List.map_map] at hinj
  | timestamp n =>
    rw [rust, Canonical.Value.denote, denote, Int64.toInt_ofInt_of_le] <;>
      simp only [Encodable, Every] at he <;> omega
  | hash h =>
    simp only [Encodable, Every] at he
    rw [rust, dif_pos he]
    rfl
  | _ => rfl

/-! ### Marks of a value and of its bytes -/

theorem units_mark_append {r : String} : units (byteOrderMark ++ r) = 0xFEFF :: units r := by
  simp only [units, codePoints, byteOrderMark, String.toList_append, List.map_append,
    List.flatMap_append]
  rfl

/-- A well-formed string begins with U+FEFF if and only if its UTF-8 has a byte order mark. -/
theorem marked_iff {s : Str} (h : IsWellFormed s) :
    startsWith byteOrderMark (usvString s) ↔ s.head? = some 0xFEFF := by
  have hunits : units (usvString s) = s := by
    rw [units, ← ofUnits_of_wellFormed h, flatMap_units_ofUnits]
  constructor
  · intro hmark
    obtain ⟨r, hr⟩ := eq_append_of_startsWith hmark
    rw [hr, units_mark_append] at hunits
    rw [← hunits, List.head?_cons]
  · intro hhead
    obtain ⟨us, rfl⟩ : ∃ us, s = 0xFEFF :: us := by
      cases s with
      | nil => cases hhead
      | cons u us =>
        cases hhead
        exact ⟨us, rfl⟩
    have hchar : ofUnits (0xFEFF :: us) = ofChar '\uFEFF' :: ofUnits us := by
      cases us with
      | nil => rfl
      | cons u us =>
        have hhigh : ¬ isHigh 0xFEFF := by decide
        rw [ofUnits, if_neg (fun h => hhigh h.1)]
        rfl
    rw [ofUnits_of_wellFormed h, codePoints] at hchar
    obtain ⟨c, cs, hcs, hc, -⟩ := List.map_eq_cons_iff.1 hchar
    rw [ofChar_injective hc] at hcs
    rw [startsWith_iff]
    exact ⟨String.ofList cs, String.ext (by rw [hcs]; simp [byteOrderMark])⟩

theorem Value.unmarked_rust {v : Value} (hw : v.WellFormed) (hd : v.Distinct) :
    v.rust.canonical.Unmarked ↔ v.Unmarked := by
  induction v using Value.induction with
  | string s =>
    rw [rust, Canonical.Value.canonical, Tlv.Unmarked, marked_iff hw]
    rfl
  | array items ih =>
    simp only [WellFormed, Every, everyItems_iff] at hw
    simp only [Distinct, distinctItems_iff] at hd
    simp only [rust, Canonical.Value.canonical, Tlv.Unmarked, unmarkedItems_iff, Unmarked, Every,
      everyItems_iff, canonicalItems_eq, rustItems_eq, List.map_map, List.forall_mem_map]
    exact forall₂_congr fun v hv => ih v hv (hw v hv) (hd v hv)
  | map es ih =>
    simp only [WellFormed, Every, everyEntries_iff] at hw
    simp only [Distinct, distinctEntries_iff] at hd
    have hperm := OrdMap.ofList_perm utf8_injective
      (rustEntries_nodup hd.1 fun e he => (hw e he).1)
    have hmem : ∀ e, e ∈ canonicalEntries (OrdMap.ofList utf8 (rustEntries es)) ↔
        e ∈ canonicalEntries (rustEntries es) := by
      intro e
      rw [canonicalEntries_eq, canonicalEntries_eq]
      exact (hperm.map _).mem_iff
    simp only [rust, Canonical.Value.canonical, Tlv.Unmarked, unmarkedEntries_iff, Unmarked, Every,
      everyEntries_iff, mem_sortEntries, hmem]
    rw [canonicalEntries_eq, rustEntries_eq, List.map_map, List.forall_mem_map]
    refine forall₂_congr fun e he => and_congr ?_ (ih e he (hw e he).2 (hd.2 e he))
    exact not_congr (marked_iff (hw e he).1)
  | hash h =>
    rw [rust]
    split <;> exact Iff.rfl
  | _ => exact Iff.rfl

theorem encodeItems_mem {vs : List Value} {b : Bytes} (h : encodeItems vs = .ok b) :
    ∀ v ∈ vs, ∃ a, encodeInto v = .ok a := by
  induction vs generalizing b with
  | nil => exact fun v hv => by cases hv
  | cons v vs ih =>
    obtain ⟨a, h1, h2⟩ := bind_eq_ok.1 h
    obtain ⟨rest, h3, -⟩ := bind_eq_ok.1 h2
    exact List.forall_mem_cons.2 ⟨⟨a, h1⟩, ih h3⟩

theorem concatKeyed_mem {ε : Type} {ks : List (Bytes × Except ε Bytes)} {b : Bytes}
    (h : concatKeyed ks = .ok b) : ∀ k ∈ ks, ∃ a, k.2 = .ok a := by
  induction ks generalizing b with
  | nil => exact fun k hk => by cases hk
  | cons k ks ih =>
    obtain ⟨key, val⟩ := k
    obtain ⟨a, h1, h2⟩ := bind_eq_ok.1 h
    obtain ⟨rest, h3, -⟩ := bind_eq_ok.1 h2
    exact List.forall_mem_cons.2 ⟨⟨a, h1⟩, ih h3⟩

/-- What is encoded fits the types of the format. -/
theorem Value.encodable_of_encode {v : Value} {b : Bytes} (h : encodeInto v = .ok b) :
    v.Encodable := by
  induction v using Value.induction generalizing b with
  | int n =>
    obtain ⟨raw, h1, -⟩ := bind_eq_ok.1 h
    simp only [Encodable, Every]
    unfold writeI64BE at h1
    split at h1
    · cases h1
    · omega
  | uint n =>
    obtain ⟨raw, h1, -⟩ := bind_eq_ok.1 h
    simp only [Encodable, Every]
    unfold writeU64BE at h1
    split at h1
    · cases h1
    · omega
  | array items ih =>
    obtain ⟨len, -, h1⟩ := bind_eq_ok.1 h
    obtain ⟨body, h2, -⟩ := bind_eq_ok.1 h1
    simp only [Encodable, Every, everyItems_iff]
    intro v hv
    obtain ⟨a, ha⟩ := encodeItems_mem h2 v hv
    exact ih v hv ha
  | map es ih =>
    obtain ⟨len, -, h1⟩ := bind_eq_ok.1 h
    obtain ⟨keyed, h2, h3⟩ := bind_eq_ok.1 h1
    obtain ⟨body, h4, -⟩ := bind_eq_ok.1 h3
    rw [encodeEntries_ok] at h2
    cases h2
    simp only [Encodable, Every, everyEntries_iff]
    intro e he
    have hmem : (keyOfStr e.1, encodeInto e.2) ∈ sortKeyed (keyedOf keyOfStr encodeInto es) :=
      (List.perm_insertionSort _ _).mem_iff.2 (List.mem_map_of_mem he)
    obtain ⟨a, ha⟩ := concatKeyed_mem h4 _ hmem
    exact ⟨trivial, ih e he ha⟩
  | timestamp n =>
    obtain ⟨raw, h1, -⟩ := bind_eq_ok.1 h
    simp only [Encodable, Every]
    unfold writeI64BE at h1
    split at h1
    · cases h1
    · omega
  | hash x =>
    simp only [encodeInto] at h
    split at h
    · assumption
    · cases h
  | _ => trivial

/-! ### Values that come back -/

/-- The value is encoded, and its bytes are decoded to a value that is equal to it: maps as sets of
entries. -/
def RoundTrips (v : Value) : Prop :=
  ∃ b v', encode v = .ok b ∧ decode b = .ok v' ∧ v'.denote = v.denote

/-- Values with one meaning are one value. -/
theorem rust_eq_of_denote {v w : Canonical.Value} (hv : v.WF) (hw : w.WF)
    (h : v.denote = w.denote) : v = w := by
  have hread : v.canonical.tsValue.denote = v.denote := by
    rw [Tlv.denote_tsValue, ← Tlv.denote_value, Canonical.Value.value_canonical hv]
  have h1 := encode_eq_wire hv Tlv.distinct_tsValue hread
  have h2 := encode_eq_wire hw Tlv.distinct_tsValue (hread.trans h)
  have hwire : v.canonical.bytesOf = w.canonical.bytesOf := Except.ok.inj (h1.symm.trans h2)
  have htree := (Tlv.unique v.canonical (Canonical.Value.canonical_ok hv)
    (Canonical.Value.canonical_ok hw) (congrArg (· ++ []) hwire)).1
  rw [← Canonical.Value.value_canonical hv, htree, Canonical.Value.value_canonical hw]

/-- A value comes back from its bytes if and only if it fits the format and none of its strings
begins with U+FEFF. -/
theorem roundTrips_iff {v : Value} (hw : v.WellFormed) (hd : v.Distinct)
    (hmem : ∀ b, encode v = .ok b → b.length ≤ maxArrayLength) :
    RoundTrips v ↔ v.Encodable ∧ v.Unmarked := by
  suffices h : v.Encodable → (RoundTrips v ↔ v.Unmarked) by
    constructor
    · intro hv
      obtain ⟨b, _, hb, -⟩ := id hv
      have he := Value.encodable_of_encode hb
      exact ⟨he, (h he).1 hv⟩
    · rintro ⟨he, hm⟩
      exact (h he).2 hm
  intro he
  have hden := Value.denote_rust hw he hd
  have henc : encode v = .ok v.rust.wire := encode_eq_wire Value.rust_wf hd hden.symm
  have hlen := le_isizeMax (hmem _ henc)
  have hfits := Canonical.Value.canonical_fits Value.rust_wf hlen
  have hspell := Canonical.Value.canonical_spells Value.rust_wf hfits
  have hbuf : v.rust.wire.length < 2 ^ 64 := by simp only [isizeMax] at hlen; omega
  have hdec : decode v.rust.wire = .ok v.rust.canonical.tsRead :=
    (decode_iff hbuf).2 ⟨_, hspell.py_of_rust hfits, rfl⟩
  have hback : v.rust.canonical.tsRead.denote = v.rust.canonical.unmark.value.denote :=
    Tlv.denote_tsValue.trans Tlv.denote_value.symm
  have hvalue := Canonical.Value.value_canonical (@Value.rust_wf v)
  rw [← Value.unmarked_rust hw hd]
  constructor
  · rintro ⟨b, v', h1, h2, h3⟩
    cases Except.ok.inj (henc.symm.trans h1)
    cases Except.ok.inj (hdec.symm.trans h2)
    refine Tlv.unmarked_of_value hspell.2 (Canonical.Value.canonical_shortest hfits) ?_
    rw [hvalue]
    refine rust_eq_of_denote Tlv.value_wf Value.rust_wf ?_
    rw [← hback, h3, hden]
  · intro hm
    refine ⟨_, _, henc, hdec, ?_⟩
    rw [hback, Tlv.unmark_of_unmarked hm, hvalue, hden]

/-- The codec inverts itself on a value, and on bytes, if and only if they are as said. -/
theorem codec_inverts (v : Value) (hw : v.WellFormed) (hd : v.Distinct)
    (hmem : ∀ b, encode v = .ok b → b.length ≤ maxArrayLength) (b : Bytes) (v' : Value)
    (hb : b.length ≤ maxArrayLength) (h : decode b = .ok v') :
    (RoundTrips v ↔ v.Encodable ∧ v.Unmarked) ∧ (encode v' = .ok b ↔ ReviewSpelling b) :=
  ⟨roundTrips_iff hw hd hmem, reencode_iff hb h⟩

theorem codec_inverts_pair :
    (RoundTrips (.map [([97], .array [.int (-1)])]) ↔
      (Value.map [([97], .array [.int (-1)])]).Encodable ∧
        (Value.map [([97], .array [.int (-1)])]).Unmarked) ∧
    (encode (.bytes []) = .ok [0x21, 0x00] ↔ ReviewSpelling [0x21, 0x00]) := by
  refine codec_inverts _ ?_ ?_ ?_ _ _ (by decide) rfl
  · exact ⟨⟨"a", rfl⟩, ⟨trivial, trivial⟩, trivial⟩
  · simp [Value.Distinct, DistinctEntries, DistinctItems]
  · intro b hb
    have henc : encode (.map [([97], .array [.int (-1)])]) = .ok [0x31, 0x01, 0x20, 0x01, 0x61,
        0x30, 0x01, 0x10, 0xFF, 0xFF, 0xFF, 0xFF, 0xFF, 0xFF, 0xFF, 0xFF] := by rfl
    cases Except.ok.inj (henc.symm.trans hb)
    decide

/-- A string of one mark comes back empty. -/
theorem marked_string_lost : ¬ ∀ v : Value, v.WellFormed → v.Distinct → RoundTrips v := by
  intro h
  have hw : (Value.string [0xFEFF]).WellFormed := ⟨byteOrderMark, rfl⟩
  obtain ⟨b, v', h1, h2, h3⟩ := h _ hw trivial
  have henc : encode (.string [0xFEFF]) = .ok [0x20, 0x03, 0xEF, 0xBB, 0xBF] := by rfl
  cases Except.ok.inj (henc.symm.trans h1)
  have hdec : decode [0x20, 0x03, 0xEF, 0xBB, 0xBF] = .ok (.string []) := by rfl
  cases Except.ok.inj (hdec.symm.trans h2)
  cases h3

end Ts

end Myco.Canonical
