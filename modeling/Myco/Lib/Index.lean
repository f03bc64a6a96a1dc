import Mathlib.Data.List.Dedup
import Mathlib.Data.List.Induction
import Mathlib.Logic.Function.Basic

/-!
# Indexes built in one pass

A map that a loop over a list fills: each element that has a key updates the entry of its key.
`buildIndex_append` says what one more element does, and so carries the inductions over the list;
`buildIndex_eq_none_iff` says which keys have no entry, `buildIndex_rec` and `le_buildIndex` what
an entry is and what it bounds.
-/

namespace Myco.Lib

variable {ν κ α : Type} [DecidableEq κ]

/-- `if let Some(k) = key(n) { m.insert(k, combine(m.get(k), n)) }` -/
def updateIndex (key : ν → Option κ) (combine : Option α → ν → α) (m : κ → Option α) (n : ν) :
    κ → Option α :=
  match key n with
  | none => m
  | some k => Function.update m k (some (combine (m k) n))

def buildIndex (key : ν → Option κ) (combine : Option α → ν → α) (ns : List ν) : κ → Option α :=
  ns.foldl (updateIndex key combine) fun _ => none

/-- The entries, each once. -/
def indexValues (key : ν → Option κ) (combine : Option α → ν → α) (ns : List ν) : List α :=
  (ns.filterMap key).dedup.filterMap (buildIndex key combine ns)

variable {key : ν → Option κ} {combine : Option α → ν → α} {ns : List ν} {n : ν} {k : κ}

theorem buildIndex_append : buildIndex key combine (ns ++ [n]) k =
    if key n = some k then some (combine (buildIndex key combine ns k) n)
    else buildIndex key combine ns k := by
  rw [buildIndex, List.foldl_append, List.foldl_cons, List.foldl_nil]
  show updateIndex key combine (buildIndex key combine ns) n k = _
  unfold updateIndex
  cases h : key n with
  | none => rw [if_neg (by simp)]
  | some j =>
    dsimp only
    by_cases hj : j = k
    · subst hj
      rw [if_pos rfl, Function.update_self]
    · rw [if_neg (fun hc => hj (Option.some.inj hc)), Function.update_of_ne (Ne.symm hj)]

theorem buildIndex_eq_none_iff : buildIndex key combine ns k = none ↔ ∀ n ∈ ns, key n ≠ some k := by
  induction ns using List.reverseRecOn with
  | nil => simp [buildIndex]
  | append_singleton ns n ih =>
    rw [buildIndex_append, List.forall_mem_append, List.forall_mem_singleton, ← ih]
    split
    · simp [*]
    · simp [*]

theorem mem_indexValues {v : α} :
    v ∈ indexValues key combine ns ↔ ∃ k, buildIndex key combine ns k = some v := by
  simp only [indexValues, List.mem_filterMap, List.mem_dedup]
  constructor
  · rintro ⟨k, -, h⟩
    exact ⟨k, h⟩
  · rintro ⟨k, h⟩
    by_contra hc
    have hnone : buildIndex key combine ns k = none :=
      buildIndex_eq_none_iff.2 fun n hn hk => hc ⟨k, ⟨n, hn, hk⟩, h⟩
    rw [hnone] at h
    cases h

/-- What holds of each element's first entry and passes from entry to entry holds of the entry. -/
theorem buildIndex_rec {P : α → Prop} (h0 : ∀ n ∈ ns, key n = some k → P (combine none n))
    (h1 : ∀ n ∈ ns, key n = some k → ∀ v, P v → P (combine (some v) n)) {v : α}
    (h : buildIndex key combine ns k = some v) : P v := by
  induction ns using List.reverseRecOn generalizing v with
  | nil => cases h
  | append_singleton ns n ih =>
    rw [List.forall_mem_append, List.forall_mem_singleton] at h0 h1
    rw [buildIndex_append] at h
    split at h
    · rename_i hk
      cases h
      cases hv : buildIndex key combine ns k with
      | none => exact h0.2 hk
      | some w => exact h1.2 hk w (ih h0.1 h1.1 hv)
    · exact ih h0.1 h1.1 h

/-- Elements without a key leave no trace. -/
theorem buildIndex_append_of_none {ms : List ν} (h : ∀ m ∈ ms, key m = none) :
    buildIndex key combine (ns ++ ms) = buildIndex key combine ns := by
  funext k
  induction ms using List.reverseRecOn with
  | nil => rw [List.append_nil]
  | append_singleton ms m ih =>
    rw [List.forall_mem_append, List.forall_mem_singleton] at h
    rw [← List.append_assoc, buildIndex_append, h.2, if_neg (by simp), ih h.1]

theorem filterMap_append_of_none {β : Type} {f : ν → Option β} {ms : List ν}
    (h : ∀ m ∈ ms, f m = none) : (ns ++ ms).filterMap f = ns.filterMap f := by
  rw [List.filterMap_append, List.filterMap_eq_nil_iff.2 h, List.append_nil]

theorem indexValues_append_of_none {ms : List ν} (h : ∀ m ∈ ms, key m = none) :
    indexValues key combine (ns ++ ms) = indexValues key combine ns := by
  rw [indexValues, indexValues, buildIndex_append_of_none h, filterMap_append_of_none h]

/-- Entries that tell their keys apart are told apart. -/
theorem nodup_map_indexValues {β : Type} {f : α → β}
    (h : ∀ k k' v v', buildIndex key combine ns k = some v →
      buildIndex key combine ns k' = some v' → f v = f v' → k = k') :
    ((indexValues key combine ns).map f).Nodup := by
  rw [indexValues, List.map_filterMap]
  refine (List.nodup_dedup _).filterMap ?_
  intro k k' b hb hb'
  obtain ⟨v, hv, rfl⟩ := Option.map_eq_some_iff.1 hb
  obtain ⟨v', hv', he⟩ := Option.map_eq_some_iff.1 hb'
  exact h k k' v v' hv hv' he.symm

/-- What is kept as a bound for each element bounds all of them in the end. -/
theorem le_buildIndex {f : ν → ℕ} {g : α → ℕ} {v : α} (h : buildIndex key combine ns k = some v)
    (hn : ∀ entry n, f n ≤ g (combine entry n)) (hv : ∀ v n, g v ≤ g (combine (some v) n)) :
    ∀ n ∈ ns, key n = some k → f n ≤ g v := by
  induction ns using List.reverseRecOn generalizing v with
  | nil => cases h
  | append_singleton ns m ih =>
    intro n hmem hk
    rw [buildIndex_append] at h
    rcases List.mem_append.1 hmem with hmem | hmem
    · obtain ⟨w, hw⟩ : ∃ w, buildIndex key combine ns k = some w := by
        rw [← Option.ne_none_iff_exists']
        exact fun hc => buildIndex_eq_none_iff.1 hc n hmem hk
      have hle := ih hw n hmem hk
      split at h
      · cases h
        rw [hw]
        exact Nat.le_trans hle (hv w m)
      · cases hw.symm.trans h
        exact hle
    · obtain rfl := List.mem_singleton.1 hmem
      rw [if_pos hk] at h
      cases h
      exact hn _ _

end Myco.Lib
