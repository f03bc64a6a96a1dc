import Myco.Canonical.TypeScript
import Myco.Canonical.RoundTrip

/-!
# The three encoders write the same bytes

A tree that all three languages can express is encoded to the same bytes by each of them, whatever
the order in which the entries of its maps were inserted, and different trees to different bytes
(`encoders_agree`). Each encoder is compared with the Rust value of the same meaning: entries with
the same meaning have the same encoded key and, by induction, the same encoded value, so that the
two lists of entries differ in their order at most, and sorting by the keys removes that.
-/

namespace Myco.Canonical

open Myco.Lib

/-! ### Entries with the same meaning -/

section

variable {κ V ε : Type} {cp : κ → List CodePoint} {den : V → Tree} {kb : κ → Bytes}
  {enc : V → Except ε Bytes} {ps : List (κ × V)} {es : List (String × Value)}

/-- The entries of a map of some language, with encoded keys and encodings of the values. -/
def keyedOf (kb : κ → Bytes) (enc : V → Except ε Bytes) (ps : List (κ × V)) :
    List (Bytes × Except ε Bytes) :=
  ps.map fun e => (kb e.1, enc e.2)

/-- The same for a Rust map and its canonical encoding. -/
def keyedRust (es : List (String × Value)) : List (Bytes × Except ε Bytes) :=
  es.map fun e => (keyBytes (Key.ofString e.1), .ok e.2.wire)

theorem keyedRust_nodup (h : KeySorted es) :
    ((keyedRust (ε := ε) es).map Prod.fst).Nodup := by
  have := canonicalEntries_nodup h.nodup_keys
  rw [canonicalEntries_eq, List.map_map] at this
  rw [keyedRust, List.map_map]
  exact this

theorem concat_keyedRust :
    concatKeyed (sortKeyed (keyedRust (ε := ε) es))
      = .ok (bytesOfEntries (sortEntries (canonicalEntries es))) := by
  have h : keyedRust (ε := ε) es
      = (canonicalEntries es).map fun e => (keyBytes e.1, .ok e.2.bytesOf) := by
    rw [keyedRust, canonicalEntries_eq, List.map_map]
    rfl
  rw [h, sortKeyed_map fun t => Except.ok t.bytesOf, concatKeyed_ok]

variable (hcp : Function.Injective cp) (hdist : (ps.map Prod.fst).Nodup) (hes : KeySorted es)
  (hkb : ∀ e ∈ ps, ∀ s, cp e.1 = codePoints s → kb e.1 = keyBytes (Key.ofString s))
  (henc : ∀ e ∈ ps, ∀ d ∈ es, den e.2 = d.2.denote → enc e.2 = .ok d.2.wire)
  (hlook : ∀ p, OrdMap.get p (ps.map fun e => (cp e.1, den e.2)) = denoteEntries es p)

include hcp hdist hlook in
/-- An entry has its counterpart in the Rust map. -/
theorem counterpart {e : κ × V} (he : e ∈ ps) :
    ∃ d ∈ es, cp e.1 = codePoints d.1 ∧ den e.2 = d.2.denote := by
  have hn : ((ps.map fun e => (cp e.1, den e.2)).map Prod.fst).Nodup := by
    have := hdist.map hcp
    rw [List.map_map] at this ⊢
    exact this
  have hget := OrdMap.get_of_mem_of_nodup hn (List.mem_map_of_mem he)
  simp only at hget
  rw [hlook] at hget
  obtain ⟨s, hs⟩ : ∃ s, cp e.1 = codePoints s := by
    by_contra hno
    rw [denoteEntries_none fun s hs => hno ⟨s, hs⟩] at hget
    cases hget
  rw [hs, denoteEntries_codePoints, Option.map_eq_some_iff] at hget
  obtain ⟨w, hw, hden⟩ := hget
  exact ⟨(s, w), OrdMap.mem_of_get hw, hs, hden.symm⟩

include hcp hdist hes hkb henc hlook in
/-- Maps with the same meaning have the same entries, up to their order. -/
theorem keyed_perm : (keyedOf kb enc ps).Perm (keyedRust es) := by
  have hkeys : ((keyedOf kb enc ps).map Prod.fst).Nodup := by
    rw [keyedOf, List.map_map, List.Nodup, List.pairwise_map]
    rw [List.Nodup, List.pairwise_map] at hdist
    refine List.Pairwise.imp_of_mem ?_ hdist
    intro a b ha hb hne heq
    obtain ⟨d, -, hd, -⟩ := counterpart hcp (List.pairwise_map.2 hdist) hlook ha
    obtain ⟨d', -, hd', -⟩ := counterpart hcp (List.pairwise_map.2 hdist) hlook hb
    have hk : keyBytes (Key.ofString d.1) = keyBytes (Key.ofString d'.1) := by
      rw [← hkb a ha _ hd, ← hkb b hb _ hd']
      exact heq
    exact hne (hcp (by rw [hd, hd', keyBytes_ofString_injective hk]))
  rw [List.perm_ext_iff_of_nodup hkeys.of_map (keyedRust_nodup hes).of_map]
  intro x
  simp only [keyedOf, keyedRust, List.mem_map]
  constructor
  · rintro ⟨e, he, rfl⟩
    obtain ⟨d, hd, hcpd, hden⟩ := counterpart hcp hdist hlook he
    exact ⟨d, hd, by rw [hkb e he _ hcpd, henc e he d hd hden]⟩
  · rintro ⟨d, hd, rfl⟩
    have hget := hlook (codePoints d.1)
    rw [denoteEntries_codePoints, hes.get_of_mem hd, Option.map_some] at hget
    obtain ⟨e, he, heq⟩ := List.mem_map.1 (OrdMap.mem_of_get hget)
    obtain ⟨hcpe, hden⟩ := Prod.mk.inj heq
    exact ⟨e, he, by rw [hkb e he _ hcpe, henc e he d hd hden]⟩

include hcp hdist hes hkb henc hlook in
/-- Sorting by the encoded keys makes them one list. -/
theorem sortKeyed_eq : sortKeyed (keyedOf kb enc ps) = sortKeyed (keyedRust es) := by
  have hp := keyed_perm hcp hdist hes hkb henc hlook
  have hn := keyedRust_nodup (ε := ε) hes
  exact OrdMap.insertionSort_eq_of_mem_iff (r := Prod.fst) ((hp.map Prod.fst).nodup_iff.2 hn) hn
    fun _ => hp.mem_iff

end

/-! ### Python -/

namespace Py

theorem writeVarint_length {n : Nat} : writeVarint n = .ok (emit n) := by
  rw [writeVarint, if_neg (by omega), Int.toNat_natCast, emitLoop_eq (le_refl n)]

theorem encodeString_codePoints {s : String} :
    encodeString (codePoints s) = .ok (keyBytes (Key.ofString s)) := by
  rw [encodeString, encodeUtf8, scalars?_codePoints]
  simp only [ok_bind, writeVarint_length]
  rfl

theorem packQ_toInt {i : Int64} : packQ i.toInt = i64Be i := by
  rw [packQ, ← toNat_toUInt64, Int.toNat_natCast]
  rfl

theorem packQ_toNat {u : UInt64} : packQ u.toNat = u64Be u := by
  have := u.toNat_lt
  rw [packQ, Int.emod_eq_of_lt (by omega) (by omega), Int.toNat_natCast]
  rfl

theorem inI64_toInt {i : Int64} : inI64 i.toInt := by
  have h1 := i.le_toInt
  have h2 := i.toInt_lt
  simp only [inI64]
  omega

mutual

/-- No name of a `Map` stands twice. -/
def Value.Distinct : Value → Prop
  | .array items => DistinctItems items
  | .map entries => (entries.map Prod.fst).Nodup ∧ DistinctEntries entries
  | _ => True

def DistinctItems : List Value → Prop
  | [] => True
  | v :: vs => v.Distinct ∧ DistinctItems vs

def DistinctEntries : List (Str × Value) → Prop
  | [] => True
  | (_, v) :: es => v.Distinct ∧ DistinctEntries es

end

theorem distinctItems_iff {vs : List Value} : DistinctItems vs ↔ ∀ v ∈ vs, v.Distinct := by
  induction vs with
  | nil => simp [DistinctItems]
  | cons v vs ih => simp [DistinctItems, ih]

theorem distinctEntries_iff {es : List (Str × Value)} :
    DistinctEntries es ↔ ∀ e ∈ es, e.2.Distinct := by
  induction es with
  | nil => simp [DistinctEntries]
  | cons e es ih => simp [DistinctEntries, ih]

theorem encodeItems_ok {vs : List Canonical.Value} {ps : List Value}
    (h : pyDenoteItems ps = denoteItems vs)
    (henc : ∀ p ∈ ps, ∀ v ∈ vs, p.denote = v.denote → encodeInto p = .ok v.wire) :
    encodeItems ps = .ok (bytesOfItems (canonicalItems vs)) ∧ ps.length = vs.length := by
  induction vs generalizing ps with
  | nil =>
    cases ps with
    | nil => exact ⟨rfl, rfl⟩
    | cons p ps => cases h
  | cons v vs ih =>
    cases ps with
    | nil => cases h
    | cons p ps =>
      obtain ⟨hp, hps⟩ := List.cons.inj h
      obtain ⟨h1, h2⟩ := ih hps fun q hq w hw =>
        henc q (List.mem_cons_of_mem _ hq) w (List.mem_cons_of_mem _ hw)
      rw [encodeItems, henc p List.mem_cons_self v List.mem_cons_self hp, h1, List.length_cons,
        List.length_cons, h2]
      exact ⟨rfl, rfl⟩

/-- The encoded form of a name that has one. -/
def keyOfStr (k : Str) : Bytes := keyBytes (Key.ofString ((scalars? k).getD ""))

theorem keyOfStr_codePoints {k : Str} {s : String} (h : k = codePoints s) :
    keyOfStr k = keyBytes (Key.ofString s) := by
  rw [keyOfStr, h, scalars?_codePoints]
  rfl

theorem encodeEntries_ok {ps : List (Str × Value)} (h : ∀ e ∈ ps, ∃ s, e.1 = codePoints s) :
    encodeEntries ps = .ok (keyedOf keyOfStr encodeInto ps) := by
  induction ps with
  | nil => rfl
  | cons e es ih =>
    rw [List.forall_mem_cons] at h
    obtain ⟨s, hs⟩ := h.1
    have hk : encodeString e.1 = .ok (keyOfStr e.1) := by
      rw [keyOfStr_codePoints hs, hs, encodeString_codePoints]
    rw [encodeEntries, hk, ih h.2]
    rfl

theorem pyDenoteEntries_get {ps : List (Str × Value)} {p : List CodePoint} :
    OrdMap.get p (ps.map fun e => (id e.1, e.2.denote)) = pyDenoteEntries ps p := by
  induction ps with
  | nil => rfl
  | cons e es ih => rw [pyDenoteEntries, ← ih, List.map_cons, OrdMap.get_cons]; rfl

/-- The Python encoding of a value is the Rust encoding of the value with the same meaning. -/
theorem encode_eq_wire {v : Canonical.Value} {p : Value} (hv : v.WF) (hp : p.Distinct)
    (h : p.denote = v.denote) : encodeInto p = .ok v.wire := by
  induction v using Value.induction generalizing p with
  | null => cases p <;> cases h; rfl
  | bool b => cases p <;> cases h; rfl
  | int i =>
    cases p <;> cases h
    rw [encodeInto, if_pos inI64_toInt, packQ_toInt]
    rfl
  | uint u =>
    cases p <;> cases h
    have := u.toNat_lt
    rw [encodeInto, if_pos ⟨by omega, by omega⟩, packQ_toNat]
    rfl
  | string s =>
    cases p <;> cases h
    exact encodeString_codePoints
  | bytes b =>
    cases p <;> cases h
    simp only [encodeInto, writeVarint_length, ok_bind]
    rfl
  | array vs ih =>
    cases p <;> simp only [Value.denote, Canonical.Value.denote, Tree.array.injEq, reduceCtorEq] at h
    rename_i ps
    simp only [Value.Distinct, distinctItems_iff] at hp
    simp only [Canonical.Value.WF, wfItems_iff] at hv
    obtain ⟨h1, h2⟩ := encodeItems_ok h fun p hpm v hvm hd => ih v hvm (hv v hvm) (hp p hpm) hd
    simp only [encodeInto, writeVarint_length, h1, h2, ok_bind]
    rfl
  | map es ih =>
    cases p <;> simp only [Value.denote, Canonical.Value.denote, Tree.map.injEq, reduceCtorEq] at h
    rename_i ps
    simp only [Value.Distinct, distinctEntries_iff] at hp
    simp only [Canonical.Value.WF, wfEntries_iff] at hv
    have hlook : ∀ p, OrdMap.get p (ps.map fun e => (id e.1, e.2.denote)) = denoteEntries es p :=
      fun p => pyDenoteEntries_get.trans (congrFun h p)
    have hkb : ∀ e ∈ ps, ∀ s, id e.1 = codePoints s → keyOfStr e.1 = keyBytes (Key.ofString s) :=
      fun _ _ _ => keyOfStr_codePoints
    have henc : ∀ e ∈ ps, ∀ d ∈ es, e.2.denote = d.2.denote → encodeInto e.2 = .ok d.2.wire :=
      fun e he d hd hden => ih d hd (hv.2 d hd) (hp.2 e he) hden
    have hperm := keyed_perm Function.injective_id hp.1 hv.1 hkb henc hlook
    have hlen : ps.length = es.length := by simpa [keyedOf, keyedRust] using hperm.length_eq
    have hkeys : ∀ e ∈ ps, ∃ s, e.1 = codePoints s := fun e he => by
      obtain ⟨d, -, hd, -⟩ := counterpart Function.injective_id hp.1 hlook he
      exact ⟨_, hd⟩
    simp only [encodeInto, writeVarint_length, encodeEntries_ok hkeys, ok_bind, hlen]
    rw [sortKeyed_eq Function.injective_id hp.1 hv.1 hkb henc hlook, concat_keyedRust]
    rfl
  | timestamp i =>
    cases p <;> cases h
    rw [encodeInto, if_pos inI64_toInt, packQ_toInt]
    rfl
  | hash x =>
    cases p <;> cases h
    rw [encodeInto, if_pos x.length_eq]
    rfl

end Py

/-! ### TypeScript -/

namespace Ts

theorem encodeString_ofUnits {k : Str} {s : String} (h : ofUnits k = codePoints s) :
    encodeString k = .ok (keyBytes (Key.ofString s)) := by
  rw [encodeString, utf8Encode, usvString_eq h, writeVarint_length]
  rfl

theorem writeI64BE_toInt {i : Int64} : writeI64BE i.toInt = .ok (i64Be i) := by
  have h1 := i.le_toInt
  have h2 := i.toInt_lt
  have h3 := toNat_toUInt64 (i := i)
  rw [writeI64BE, if_neg (by omega), pushBytes_eq, i64Be, u64Be]
  congr 2
  split <;> omega

theorem writeU64BE_toNat {u : UInt64} : writeU64BE u.toNat = .ok (u64Be u) := by
  have := u.toNat_lt
  rw [writeU64BE, if_neg (by omega), pushBytes_eq, Int.toNat_natCast]
  rfl

theorem encodeItems_ok {vs : List Canonical.Value} {js : List Value}
    (h : denoteItems js = Canonical.denoteItems vs)
    (henc : ∀ j ∈ js, ∀ v ∈ vs, j.denote = v.denote → encodeInto j = .ok v.wire) :
    encodeItems js = .ok (bytesOfItems (canonicalItems vs)) ∧ js.length = vs.length := by
  induction vs generalizing js with
  | nil =>
    cases js with
    | nil => exact ⟨rfl, rfl⟩
    | cons j js => cases h
  | cons v vs ih =>
    cases js with
    | nil => cases h
    | cons j js =>
      obtain ⟨hj, hjs⟩ := List.cons.inj h
      obtain ⟨h1, h2⟩ := ih hjs fun q hq w hw =>
        henc q (List.mem_cons_of_mem _ hq) w (List.mem_cons_of_mem _ hw)
      rw [encodeItems, henc j List.mem_cons_self v List.mem_cons_self hj, h1, List.length_cons,
        List.length_cons, h2]
      exact ⟨rfl, rfl⟩

/-- The encoded form of a key. -/
def keyOfStr (k : Str) : Bytes := keyBytes (Key.ofString (usvString k))

theorem encodeEntries_ok {js : List (Str × Value)} :
    encodeEntries js = .ok (keyedOf keyOfStr encodeInto js) := by
  induction js with
  | nil => rfl
  | cons e es ih =>
    have hk : encodeString e.1 = .ok (keyOfStr e.1) := by
      rw [encodeString, utf8Encode, writeVarint_length]
      rfl
    rw [encodeEntries, hk, ih]
    rfl

/-- The TypeScript encoding of a value is the Rust encoding of the value with the same
meaning. -/
theorem encode_eq_wire {v : Canonical.Value} {j : Value} (hv : v.WF) (hj : j.Distinct)
    (h : j.denote = v.denote) : encodeInto j = .ok v.wire := by
  induction v using Value.induction generalizing j with
  | null => cases j <;> cases h; rfl
  | bool b => cases j <;> cases h; rfl
  | int i =>
    cases j <;> cases h
    rw [encodeInto, writeI64BE_toInt]
    rfl
  | uint u =>
    cases j <;> cases h
    rw [encodeInto, writeU64BE_toNat]
    rfl
  | string s =>
    cases j <;> simp only [Value.denote, Canonical.Value.denote, Tree.string.injEq,
      reduceCtorEq] at h
    exact encodeString_ofUnits h
  | bytes b =>
    cases j <;> cases h
    simp only [encodeInto, writeVarint_length, ok_bind]
    rfl
  | array vs ih =>
    cases j <;> simp only [Value.denote, Canonical.Value.denote, Tree.array.injEq,
      reduceCtorEq] at h
    rename_i js
    simp only [Value.Distinct, distinctItems_iff] at hj
    simp only [Canonical.Value.WF, wfItems_iff] at hv
    obtain ⟨h1, h2⟩ := encodeItems_ok h fun j hjm v hvm hd => ih v hvm (hv v hvm) (hj j hjm) hd
    simp only [encodeInto, writeVarint_length, h1, h2, ok_bind]
    rfl
  | map es ih =>
    cases j <;> simp only [Value.denote, Canonical.Value.denote, Tree.map.injEq,
      reduceCtorEq] at h
    rename_i js
    simp only [Value.Distinct, distinctEntries_iff] at hj
    simp only [Canonical.Value.WF, wfEntries_iff] at hv
    have hlook : ∀ p, OrdMap.get p (js.map fun e => (ofUnits e.1, e.2.denote))
        = Canonical.denoteEntries es p :=
      fun p => denoteEntries_eq.symm.trans (congrFun h p)
    have hkb : ∀ e ∈ js, ∀ s, ofUnits e.1 = codePoints s →
        keyOfStr e.1 = keyBytes (Key.ofString s) := by
      intro e _ s hs
      rw [keyOfStr, usvString_eq hs]
    have henc : ∀ e ∈ js, ∀ d ∈ es, e.2.denote = d.2.denote → encodeInto e.2 = .ok d.2.wire :=
      fun e he d hd hden => ih d hd (hv.2 d hd) (hj.2 e he) hden
    have hperm := keyed_perm ofUnits_injective hj.1 hv.1 hkb henc hlook
    have hlen : js.length = es.length := by simpa [keyedOf, keyedRust] using hperm.length_eq
    simp only [encodeInto, writeVarint_length, encodeEntries_ok, ok_bind, hlen, sortKeyed_eq]
    rw [Canonical.sortKeyed_eq ofUnits_injective hj.1 hv.1 hkb henc hlook, concat_keyedRust]
    rfl
  | timestamp i =>
    cases j <;> cases h
    rw [encodeInto, writeI64BE_toInt]
    rfl
  | hash x =>
    cases j <;> cases h
    rw [encodeInto, if_pos x.length_eq]
    rfl

end Ts

/-! ### All three -/

/-- A tree as each of the three languages holds it. -/
structure Expression (T : Tree) where
  rust : Value
  rust_wf : rust.WF
  rust_fits : rust.wire.length ≤ isizeMax
  rust_denote : rust.denote = T
  py : Py.Value
  py_distinct : py.Distinct
  py_denote : py.denote = T
  ts : Ts.Value
  ts_distinct : ts.Distinct
  ts_denote : ts.denote = T

namespace Expression

variable {T T' : Tree}

theorem encode_rust (e : Expression T) : encode e.rust = .ok e.rust.wire :=
  encode_eq (Value.canonical_fits e.rust_wf e.rust_fits)

theorem encode_py (e : Expression T) : Py.encode e.py = .ok e.rust.wire :=
  Py.encode_eq_wire e.rust_wf e.py_distinct (e.py_denote.trans e.rust_denote.symm)

theorem encode_ts (e : Expression T) : Ts.encode e.ts = .ok e.rust.wire :=
  Ts.encode_eq_wire e.rust_wf e.ts_distinct (e.ts_denote.trans e.rust_denote.symm)

/-- What the bytes decode to is the Rust value, so they tell trees apart. -/
theorem tree_of_wire (e : Expression T) (e' : Expression T') (h : e.rust.wire = e'.rust.wire) :
    T = T' := by
  obtain ⟨bs, hb, hd⟩ := decode_encode e.rust_wf e.rust_fits
  obtain ⟨bs', hb', hd'⟩ := decode_encode e'.rust_wf e'.rust_fits
  rw [e.encode_rust, Except.ok.injEq] at hb
  rw [e'.encode_rust, Except.ok.injEq] at hb'
  subst hb hb'
  rw [h, hd'] at hd
  rw [← e.rust_denote, ← e'.rust_denote, Except.ok.inj hd]

/-- Two Rust values with the same meaning are encoded alike. -/
theorem wire_of_tree (e : Expression T) (e' : Expression T) : e.rust.wire = e'.rust.wire := by
  have h := Py.encode_eq_wire e'.rust_wf e.py_distinct (e.py_denote.trans e'.rust_denote.symm)
  exact Except.ok.inj (e.encode_py.symm.trans h)

end Expression

/-- The three encoders write the same bytes for a tree, and different bytes for different trees, as
deep as the interpreters let them recurse. -/
theorem encoders_agree {T T' : Tree} (e : Expression T) (e' : Expression T') :
    ∃ bs bs', encode e.rust = .ok bs ∧ Py.encode e.py = .ok bs ∧ Ts.encode e.ts = .ok bs ∧
      encode e'.rust = .ok bs' ∧ Py.encode e'.py = .ok bs' ∧ Ts.encode e'.ts = .ok bs' ∧
      (bs = bs' ↔ T = T') := by
  refine ⟨_, _, e.encode_rust, e.encode_py, e.encode_ts, e'.encode_rust, e'.encode_py,
    e'.encode_ts, e.tree_of_wire e', ?_⟩
  rintro rfl
  exact e.wire_of_tree e'

/-- `{"aa": null, "b": 7}`, built in the other order in Python and in TypeScript. -/
def twoKeys : Expression (Value.map [("aa", .null), ("b", .uint 7)]).denote where
  rust := .map [("aa", .null), ("b", .uint 7)]
  rust_wf := by simp only [Value.WF, WFEntries, and_true, OrdMap.Sorted]; decide
  rust_fits := by decide
  rust_denote := rfl
  py := .map [([98], .uint 7), ([97, 97], .null)]
  py_distinct := by simp only [Py.Value.Distinct, Py.DistinctEntries, and_true]; decide
  py_denote := by
    simp only [Py.Value.denote, Value.denote, Tree.map.injEq]
    funext p
    by_cases h : p = [98]
    · subst h; rfl
    · have hb : ¬ p = codePoints "b" := h
      simp only [pyDenoteEntries, denoteEntries, h, hb, if_false]
      rfl
  ts := .map [([98], .uint 7), ([97, 97], .null)]
  ts_distinct := by simp only [Ts.Value.Distinct, Ts.DistinctEntries, and_true]; decide
  ts_denote := by
    simp only [Ts.Value.denote, Value.denote, Tree.map.injEq]
    funext p
    by_cases h : p = [98]
    · subst h; rfl
    · have hb : ¬ p = codePoints "b" := h
      have hu : ¬ p = ofUnits [98] := h
      simp only [Ts.denoteEntries, denoteEntries, hb, hu, if_false]
      rfl

theorem encoders_agree_two_keys :
    ∃ bs bs', encode twoKeys.rust = .ok bs ∧ Py.encode twoKeys.py = .ok bs ∧
      Ts.encode twoKeys.ts = .ok bs ∧ encode twoKeys.rust = .ok bs' ∧
      Py.encode twoKeys.py = .ok bs' ∧ Ts.encode twoKeys.ts = .ok bs' ∧
      (bs = bs' ↔ (Value.map [("aa", .null), ("b", .uint 7)]).denote
        = (Value.map [("aa", .null), ("b", .uint 7)]).denote) :=
  encoders_agree twoKeys twoKeys

end Myco.Canonical
