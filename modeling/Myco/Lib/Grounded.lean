import Mathlib.Data.List.Induction
import Mathlib.Data.List.Nodup
import Mathlib.Logic.Relation

/-!
# Histories whose entries cite earlier ones

A history is a list of entries, each with a key and a list of keys that it cites. It is *grounded*
when every key an entry cites belongs to an entry before it.

- `grounded_append_singleton`: what one more entry has to satisfy.
- `Grounded.induction`: induction over a history along what its entries cite.
- `Grounded.acyclic`: no key is cited, through any chain of entries, by itself.
- `lookup_append`, `mem_keys_iff`: finding the entry of a key.
-/

namespace Myco.Lib

variable {ν κ : Type} (key : ν → κ) (cites : ν → List κ)

/-- What an entry cites stands before it. -/
def Grounded (ns : List ν) : Prop :=
  ∀ xs n ys, ns = xs ++ n :: ys → ∀ k ∈ cites n, k ∈ xs.map key

/-- Some entry with key `b` cites `a`. -/
def Cites (ns : List ν) (a b : κ) : Prop := ∃ n ∈ ns, key n = b ∧ a ∈ cites n

variable {key cites} {ns : List ν}

theorem grounded_nil : Grounded key cites [] := by
  intro xs n ys h
  simp at h

theorem grounded_append_singleton {n : ν} :
    Grounded key cites (ns ++ [n]) ↔ Grounded key cites ns ∧ ∀ k ∈ cites n, k ∈ ns.map key := by
  constructor
  · intro h
    refine ⟨fun xs m ys hm => ?_, h ns n [] rfl⟩
    exact h xs m (ys ++ [n]) (by rw [hm, List.append_assoc, List.cons_append])
  · rintro ⟨h1, h2⟩ xs m ys hm
    rcases List.eq_nil_or_concat ys with rfl | ⟨zs, z, rfl⟩
    · obtain ⟨rfl, hn⟩ := List.append_inj' hm rfl
      cases hn
      exact h2
    · rw [List.concat_eq_append, ← List.cons_append, ← List.append_assoc] at hm
      obtain ⟨rfl, -⟩ := List.append_inj' hm rfl
      exact h1 xs m zs rfl

theorem Grounded.of_append {ms : List ν} (h : Grounded key cites (ns ++ ms)) :
    Grounded key cites ns := by
  intro xs n ys hn
  exact h xs n (ys ++ ms) (by rw [hn, List.append_assoc, List.cons_append])

/-- Entries with distinct keys are told apart by them. -/
theorem eq_of_key_eq (hd : (ns.map key).Nodup) {m n : ν} (hm : m ∈ ns) (hn : n ∈ ns)
    (h : key m = key n) : m = n :=
  List.inj_on_of_nodup_map hd hm hn h

/-- The keys an entry cites have their entries among the earlier ones. -/
theorem Grounded.mem_of_cites (h : Grounded key cites ns) (hd : (ns.map key).Nodup)
    {xs ys : List ν} {n m : ν} (hns : ns = xs ++ n :: ys) (hm : m ∈ ns) (hc : key m ∈ cites n) :
    m ∈ xs := by
  obtain ⟨m', hm', hk⟩ := List.mem_map.1 (h xs n ys hns _ hc)
  have hmem : m' ∈ ns := hns ▸ List.mem_append_left _ hm'
  exact eq_of_key_eq hd hmem hm hk ▸ hm'

/-- Induction along the citations. -/
theorem Grounded.induction (h : Grounded key cites ns) (hd : (ns.map key).Nodup) {P : ν → Prop}
    (step : ∀ n ∈ ns, (∀ m ∈ ns, key m ∈ cites n → P m) → P n) : ∀ n ∈ ns, P n := by
  have hpre : ∀ xs ys, ns = xs ++ ys → ∀ n ∈ xs, P n := by
    intro xs
    induction xs using List.reverseRecOn with
    | nil => exact fun _ _ n hn => by cases hn
    | append_singleton xs x ih =>
      intro ys hns n hn
      rw [List.append_assoc, List.singleton_append] at hns
      rcases List.mem_append.1 hn with hn | hn
      · exact ih _ hns n hn
      · cases List.mem_singleton.1 hn
        refine step x (hns ▸ by simp) fun m hm hc => ?_
        exact ih _ hns m (h.mem_of_cites hd hns hm hc)
  exact hpre ns [] (List.append_nil ns).symm

/-- Citations go back. -/
theorem Grounded.idxOf_lt [DecidableEq κ] (h : Grounded key cites ns) (hd : (ns.map key).Nodup)
    {a b : κ} (hab : Cites key cites ns a b) : (ns.map key).idxOf a < (ns.map key).idxOf b := by
  obtain ⟨n, hn, rfl, ha⟩ := hab
  obtain ⟨xs, ys, hns⟩ := List.append_of_mem hn
  have ha' : a ∈ xs.map key := h xs n ys hns a ha
  have hn' : key n ∉ xs.map key := by
    rw [hns, List.map_append, List.map_cons] at hd
    exact fun hc => (List.disjoint_of_nodup_append hd) hc List.mem_cons_self
  rw [hns, List.map_append, List.map_cons, List.idxOf_append_of_mem ha',
    List.idxOf_append_of_notMem hn', List.idxOf_cons_self]
  have := List.idxOf_lt_length_of_mem ha'
  omega

/-- Citations only ever go back, so no chain of them closes. -/
theorem Grounded.acyclic (h : Grounded key cites ns) (hd : (ns.map key).Nodup) (k : κ) :
    ¬ Relation.TransGen (Cites key cites ns) k k := by
  classical
  have htrans : ∀ a b, Relation.TransGen (Cites key cites ns) a b →
      (ns.map key).idxOf a < (ns.map key).idxOf b := by
    intro a b hab
    induction hab with
    | single h1 => exact h.idxOf_lt hd h1
    | tail _ h2 ih => exact Nat.lt_trans ih (h.idxOf_lt hd h2)
  exact fun hk => Nat.lt_irrefl _ (htrans k k hk)

/-- Every entry is cited, through some chain of entries, by one that nobody cites. -/
theorem Grounded.exists_uncited (h : Grounded key cites ns) (hd : (ns.map key).Nodup) {n : ν}
    (hn : n ∈ ns) : ∃ m ∈ ns, (∀ k ∈ ns, key m ∉ cites k) ∧
      Relation.ReflTransGen (Cites key cites ns) (key n) (key m) := by
  classical
  -- by induction on how far the entry stands from the end
  induction hfar : ns.length - (ns.map key).idxOf (key n) using Nat.strongRecOn
    generalizing n with
  | ind far ih =>
    by_cases hcited : ∃ k ∈ ns, key n ∈ cites k
    · obtain ⟨k, hk, hnk⟩ := hcited
      have hstep : Cites key cites ns (key n) (key k) := ⟨k, hk, rfl, hnk⟩
      have hlt := h.idxOf_lt hd hstep
      have hlast := List.idxOf_lt_length_of_mem (List.mem_map_of_mem (f := key) hk)
      rw [List.length_map] at hlast
      obtain ⟨m, hm, huncited, hreach⟩ := ih _ (by omega) hk rfl
      exact ⟨m, hm, huncited, .head hstep hreach⟩
    · exact ⟨n, hn, fun k hk hnk => hcited ⟨k, hk, hnk⟩, .refl⟩

/-! ### Finding entries -/

variable [DecidableEq κ]

/-- The first entry with a key. -/
def entryOf (key : ν → κ) (ns : List ν) (k : κ) : Option ν := ns.find? (fun n => key n = k)

theorem entryOf_append {ms : List ν} {k : κ} :
    entryOf key (ns ++ ms) k = (entryOf key ns k).or (entryOf key ms k) :=
  List.find?_append

theorem key_of_entryOf {k : κ} {n : ν} (h : entryOf key ns k = some n) : key n = k := by
  simpa using List.find?_some h

theorem entryOf_isSome {k : κ} : (entryOf key ns k).isSome ↔ k ∈ ns.map key := by
  simp [entryOf, List.find?_isSome]

theorem entryOf_eq_none {k : κ} : entryOf key ns k = none ↔ k ∉ ns.map key := by
  simp [entryOf]

theorem entryOf_eq_some (hd : (ns.map key).Nodup) {k : κ} {n : ν} :
    entryOf key ns k = some n ↔ n ∈ ns ∧ key n = k := by
  constructor
  · intro h
    exact ⟨List.mem_of_find?_eq_some h, key_of_entryOf h⟩
  · rintro ⟨hn, rfl⟩
    have hs : (entryOf key ns (key n)).isSome := entryOf_isSome.2 (List.mem_map_of_mem hn)
    obtain ⟨m, hm⟩ := Option.isSome_iff_exists.1 hs
    rw [hm, eq_of_key_eq hd (List.mem_of_find?_eq_some hm) hn (key_of_entryOf hm)]

end Myco.Lib
