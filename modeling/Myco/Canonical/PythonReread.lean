import Myco.Canonical.Agree
import Myco.Canonical.MapGet
import Myco.Canonical.Parity

/-!
# What Python reads of what Python wrote

A Python value that means what some Rust value means is written as that value is, and read back as
its canonical tree stands (`decode_wire`). `pyMap` is a `Map` as `Map.from_dict` makes it; the
dictionary that is made of one that has been read has every entry that was written
(`reread_mapOf`).
-/

namespace Myco.Canonical.Py

open Myco.Lib

/-- `Map.from_dict(..)` -/
def pyMap (es : List (String × Value)) : Value := .map (es.map fun e => (codePoints e.1, e.2))

/-- What is read back of what means the same as `v`. -/
def reread (v : Canonical.Value) : Value := v.canonical.pyValue

/-- What Python has written, Python reads. -/
theorem decode_wire {v : Canonical.Value} (hv : v.WF) (hmem : v.wire.length ≤ isizeMax) :
    decode v.wire = .ok (reread v) := by
  have hbuf : v.wire.length < 2 ^ 64 := by
    simp only [isizeMax] at hmem
    omega
  have hfits := Canonical.Value.canonical_fits hv hmem
  exact (decode_iff hbuf).2
    ⟨v.canonical, (Canonical.Value.canonical_spells hv hfits).py_of_rust hfits, rfl⟩

theorem reread_array {vs : List Canonical.Value} :
    reread (.array vs) = .array (vs.map reread) := by
  rw [reread, Canonical.Value.canonical, Tlv.pyValue, pyValueItems_eq, canonicalItems_eq,
    List.map_map]
  rfl

theorem pyValueEntries_eq {es : List (Key × Tlv)} :
    pyValueEntries es = es.map fun e => (codePoints e.1.text, e.2.pyValue) := by
  induction es with
  | nil => rfl
  | cons e es ih => rw [pyValueEntries, ih, List.map_cons]

/-- Every entry of a map is found by its name. -/
theorem reread_mapOf {es : List (String × Canonical.Value)} (hn : (es.map Prod.fst).Nodup) :
    ∃ pairs, reread (mapOf es) = .map pairs ∧
      ∀ e ∈ es, OrdMap.get (codePoints e.1) pairs.reverse = some (reread e.2) := by
  have hpairs : pyValueEntries (sortEntries (canonicalEntries (OrdMap.ofList utf8 es))) =
      (sortEntries (canonicalEntries (OrdMap.ofList utf8 es))).map
        fun e => (codePoints e.1.text, e.2.pyValue) := pyValueEntries_eq
  have hperm : ((sortEntries (canonicalEntries (OrdMap.ofList utf8 es))).map
      fun e => (codePoints e.1.text, e.2.pyValue)).Perm
        (es.map fun e => (codePoints e.1, reread e.2)) := by
    refine ((List.perm_insertionSort _ _).map _).trans ?_
    rw [canonicalEntries_eq, List.map_map]
    exact (OrdMap.ofList_perm utf8_injective hn).map _
  have hkeys : ((es.map fun e => (codePoints e.1, reread e.2)).map Prod.fst).Nodup := by
    rw [List.map_map]
    have := hn.map (f := codePoints) fun _ _ => codePoints_inj.1
    rwa [List.map_map] at this
  refine ⟨_, rfl, fun e he => ?_⟩
  rw [hpairs, OrdMap.get_eq_of_perm ((List.reverse_perm _).trans hperm)
    (by rw [((List.reverse_perm _).trans hperm).map Prod.fst |>.nodup_iff]; exact hkeys)]
  exact OrdMap.get_of_mem_of_nodup hkeys (List.mem_map_of_mem he)

section

variable {ps : List (String × Value)} {es : List (String × Canonical.Value)}

theorem distinct_pyMap (hn : (ps.map Prod.fst).Nodup) (h : ∀ e ∈ ps, e.2.Distinct) :
    (pyMap ps).Distinct := by
  rw [pyMap, Value.Distinct, distinctEntries_iff, List.forall_mem_map, List.map_map]
  refine ⟨?_, h⟩
  have := hn.map (f := codePoints) fun _ _ => codePoints_inj.1
  rwa [List.map_map] at this

/-- Entries of one meaning make maps of one meaning. -/
theorem denote_pyMap (hn : (es.map Prod.fst).Nodup)
    (h : ps.map (fun e => (e.1, e.2.denote)) = es.map fun e => (e.1, e.2.denote)) :
    (pyMap ps).denote = (mapOf es).denote := by
  have hps : (ps.map fun e => (codePoints e.1, e.2)).map (fun e => (id e.1, e.2.denote)) =
      es.map fun e => (codePoints e.1, e.2.denote) := by
    have := congrArg (List.map fun e : String × Tree => (codePoints e.1, e.2)) h
    rw [List.map_map, List.map_map] at this
    rw [List.map_map]
    exact this
  rw [pyMap, mapOf, Value.denote, Canonical.Value.denote]
  congr 1
  funext p
  rw [← pyDenoteEntries_get, hps]
  by_cases hp : ∃ k, p = codePoints k
  · obtain ⟨k, rfl⟩ := hp
    have hget : ∀ l : List (String × Canonical.Value),
        OrdMap.get (codePoints k) (l.map fun e => (codePoints e.1, e.2.denote)) =
          (OrdMap.get k l).map Canonical.Value.denote := by
      intro l
      induction l with
      | nil => rfl
      | cons e l ih =>
        rw [List.map_cons, OrdMap.get_cons, OrdMap.get_cons, ih]
        simp only [codePoints_inj]
        split <;> rfl
    rw [hget, denoteEntries_codePoints, OrdMap.get_eq_of_perm (OrdMap.ofList_perm utf8_injective hn)
      ((OrdMap.ofList_perm utf8_injective hn).map Prod.fst |>.nodup_iff.2 hn)]
  · rw [denoteEntries_none fun k hk => hp ⟨k, hk⟩, OrdMap.get_eq_none_iff]
    rintro e he rfl
    obtain ⟨d, -, rfl⟩ := List.mem_map.1 he
    exact hp ⟨d.1, rfl⟩

end

end Myco.Canonical.Py
