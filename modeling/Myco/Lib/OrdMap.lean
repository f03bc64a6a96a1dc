import Mathlib.Algebra.GroupWithZero.Nat
import Mathlib.Data.List.Induction
import Mathlib.Data.List.Sort

/-!
# Sorted association lists

A finite map as its list of entries, strictly sorted by a `rank` of the key. The rank is a
parameter so that a key type can be ordered by an encoding of itself; it must be injective for
two keys to be told apart.

- `get_insert`, `insert_sorted`: what one insertion does, and that it keeps the order.
- `Sorted.ext`: two sorted maps with the same lookups are the same list.
- `get_ofList`: a map built by inserting entries in turn answers with the last one for a key.
- `insertionSort_eq_of_mem_iff`: sorting by distinct ranks forgets the order of the entries.
-/

namespace Myco.Lib.OrdMap

variable {κ α β : Type} [LinearOrder β]

/-- Strictly sorted by rank. -/
def Sorted (rank : κ → β) (m : List (κ × α)) : Prop :=
  m.Pairwise (fun a b => rank a.1 < rank b.1)

/-- Writes `v` for `k`, in place when `k` is already there. -/
def insert (rank : κ → β) (k : κ) (v : α) : List (κ × α) → List (κ × α)
  | [] => [(k, v)]
  | e :: es =>
    if rank k < rank e.1 then (k, v) :: e :: es
    else if rank k = rank e.1 then (k, v) :: es
    else e :: insert rank k v es

/-- The map that inserting the entries in turn builds. -/
def ofList (rank : κ → β) (es : List (κ × α)) : List (κ × α) :=
  es.foldl (fun m e => insert rank e.1 e.2 m) []

variable {rank : κ → β}

@[simp] theorem sorted_nil : Sorted rank ([] : List (κ × α)) := List.Pairwise.nil

theorem sorted_cons {e : κ × α} {es : List (κ × α)} :
    Sorted rank (e :: es) ↔ (∀ d ∈ es, rank e.1 < rank d.1) ∧ Sorted rank es :=
  List.pairwise_cons

theorem mem_insert {k : κ} {v : α} {m : List (κ × α)} {d : κ × α} (h : d ∈ insert rank k v m) :
    d = (k, v) ∨ d ∈ m := by
  induction m with
  | nil => simpa [insert] using h
  | cons e es ih =>
    simp only [insert] at h
    split at h
    · simpa using h
    · split at h
      · rcases List.mem_cons.1 h with h | h
        · exact .inl h
        · exact .inr (List.mem_cons_of_mem _ h)
      · rcases List.mem_cons.1 h with h | h
        · exact .inr (h ▸ List.mem_cons_self)
        · exact (ih h).imp_right (List.mem_cons_of_mem _)

theorem insert_sorted {k : κ} {v : α} {m : List (κ × α)} (h : Sorted rank m) :
    Sorted rank (insert rank k v m) := by
  induction m with
  | nil => exact List.pairwise_singleton _ _
  | cons e es ih =>
    obtain ⟨he, hes⟩ := sorted_cons.1 h
    simp only [insert]
    split
    · rename_i hlt
      refine sorted_cons.2 ⟨?_, h⟩
      intro d hd
      rcases List.mem_cons.1 hd with rfl | hd
      · exact hlt
      · exact lt_trans hlt (he d hd)
    · split
      · rename_i heq
        exact sorted_cons.2 ⟨fun d hd => heq ▸ he d hd, hes⟩
      · rename_i hnlt hne
        refine sorted_cons.2 ⟨?_, ih hes⟩
        intro d hd
        rcases mem_insert hd with rfl | hd
        · exact lt_of_le_of_ne (not_lt.1 hnlt) (Ne.symm hne)
        · exact he d hd

theorem ofList_append_singleton {es : List (κ × α)} {e : κ × α} :
    ofList rank (es ++ [e]) = insert rank e.1 e.2 (ofList rank es) := by
  simp [ofList, List.foldl_append]

theorem ofList_sorted {es : List (κ × α)} : Sorted rank (ofList rank es) := by
  unfold ofList
  generalize hm : ([] : List (κ × α)) = m
  have h : Sorted rank m := hm ▸ sorted_nil
  clear hm
  induction es generalizing m with
  | nil => exact h
  | cons e es ih => exact ih _ (insert_sorted h)

/-! ### Lookups -/

variable [DecidableEq κ]

/-- The value of the first entry for `k`. -/
def get (k : κ) : List (κ × α) → Option α
  | [] => none
  | e :: es => if k = e.1 then some e.2 else get k es

@[simp] theorem get_nil {k : κ} : get k ([] : List (κ × α)) = none := rfl

theorem get_cons {k : κ} {e : κ × α} {es : List (κ × α)} :
    get k (e :: es) = if k = e.1 then some e.2 else get k es := rfl

theorem get_append {k : κ} {l r : List (κ × α)} :
    get k (l ++ r) = (get k l).or (get k r) := by
  induction l with
  | nil => rfl
  | cons e es ih =>
    rw [List.cons_append, get_cons, get_cons, ih]
    split <;> simp

theorem mem_of_get {m : List (κ × α)} {k : κ} {v : α} (h : get k m = some v) : (k, v) ∈ m := by
  induction m with
  | nil => cases h
  | cons e es ih =>
    rw [get_cons] at h
    split at h
    · rename_i hk
      cases h
      rw [hk]
      exact List.mem_cons_self
    · exact List.mem_cons_of_mem _ (ih h)

theorem get_eq_none_iff {m : List (κ × α)} {k : κ} : get k m = none ↔ ∀ e ∈ m, k ≠ e.1 := by
  induction m with
  | nil => simp
  | cons e es ih =>
    rw [get_cons]
    split
    · rename_i hk
      simp [hk]
    · rename_i hk
      simp [ih, hk]

theorem get_insert (hr : Function.Injective rank) {k j : κ} {v : α} {m : List (κ × α)} :
    get j (insert rank k v m) = if j = k then some v else get j m := by
  induction m with
  | nil => rfl
  | cons e es ih =>
    simp only [insert]
    split
    · rfl
    · split
      · rename_i heq
        have hk : k = e.1 := hr heq
        rw [get_cons, get_cons, ← hk]
        split <;> rfl
      · rename_i hne
        rw [get_cons, get_cons, ih]
        split
        · rename_i hj
          have hjk : ¬ j = k := fun h => hne (by rw [← h, hj])
          rw [if_neg hjk]
        · rfl

/-- Inserting in turn keeps the last entry of a key. -/
theorem get_ofList (hr : Function.Injective rank) {k : κ} {es : List (κ × α)} :
    get k (ofList rank es) = get k es.reverse := by
  induction es using List.reverseRecOn with
  | nil => rfl
  | append_singleton es e ih =>
    rw [ofList_append_singleton, get_insert hr, ih, List.reverse_append, List.reverse_singleton,
      List.singleton_append, get_cons]

theorem Sorted.get_of_mem {m : List (κ × α)} (h : Sorted rank m) {e : κ × α} (he : e ∈ m) :
    get e.1 m = some e.2 := by
  induction m with
  | nil => cases he
  | cons d ds ih =>
    obtain ⟨hd, hds⟩ := sorted_cons.1 h
    rw [get_cons]
    rcases List.mem_cons.1 he with rfl | he
    · rw [if_pos rfl]
    · have hne : ¬ e.1 = d.1 := fun heq => lt_irrefl _ (heq ▸ hd e he)
      rw [if_neg hne, ih hds he]

theorem Sorted.mem_iff {m : List (κ × α)} (h : Sorted rank m) {e : κ × α} :
    e ∈ m ↔ get e.1 m = some e.2 :=
  ⟨h.get_of_mem, mem_of_get⟩

omit [DecidableEq κ] in
theorem Sorted.nodup {m : List (κ × α)} (h : Sorted rank m) : m.Nodup := by
  refine List.Pairwise.imp ?_ h
  rintro a b hlt rfl
  exact lt_irrefl _ hlt

/-- Sorted maps are determined by their lookups. -/
theorem Sorted.ext {m n : List (κ × α)} (hm : Sorted rank m) (hn : Sorted rank n)
    (h : ∀ k, get k m = get k n) : m = n := by
  refine List.Perm.eq_of_pairwise ?_ hm hn ?_
  · intro a b _ _ hab hba
    exact (lt_asymm hab hba).elim
  · rw [List.perm_ext_iff_of_nodup hm.nodup hn.nodup]
    intro e
    rw [hm.mem_iff, hn.mem_iff, h]

/-- Inserting a sorted map's entries in any order builds it again. -/
theorem Sorted.ofList_eq (hr : Function.Injective rank) {m es : List (κ × α)}
    (hm : Sorted rank m) (hp : es.Perm m) : ofList rank es = m := by
  refine ofList_sorted.ext hm fun k => ?_
  rw [get_ofList hr]
  have hrev : es.reverse.Perm m := (List.reverse_perm es).trans hp
  cases hl : get k es.reverse with
  | some v => exact (hm.get_of_mem (hrev.subset (mem_of_get hl))).symm
  | none =>
    rw [get_eq_none_iff] at hl
    exact (get_eq_none_iff.2 fun d hd => hl d (hrev.symm.subset hd)).symm

/-- Where no key occurs twice, a lookup finds the entry itself. -/
theorem get_of_mem_of_nodup {m : List (κ × α)} (h : (m.map Prod.fst).Nodup) {e : κ × α}
    (he : e ∈ m) : get e.1 m = some e.2 := by
  induction m with
  | nil => cases he
  | cons d ds ih =>
    rw [List.map_cons, List.nodup_cons] at h
    rw [get_cons]
    rcases List.mem_cons.1 he with rfl | he
    · rw [if_pos rfl]
    · have hne : ¬ e.1 = d.1 := fun heq => h.1 (heq ▸ List.mem_map_of_mem he)
      rw [if_neg hne, ih h.2 he]

/-- Lists with the same entries answer a key alike, if none stands twice. -/
theorem get_eq_of_perm {l l' : List (κ × α)} (hp : l.Perm l') (hn : (l.map Prod.fst).Nodup)
    {k : κ} : get k l = get k l' := by
  cases h : get k l with
  | none =>
    rw [get_eq_none_iff] at h
    exact (get_eq_none_iff.2 fun e he => h e (hp.mem_iff.2 he)).symm
  | some v =>
    have hmem := hp.mem_iff.1 (mem_of_get h)
    exact (get_of_mem_of_nodup ((hp.map Prod.fst).nodup_iff.1 hn) hmem).symm

omit [DecidableEq κ] in
theorem mem_of_mem_ofList {es : List (κ × α)} {e : κ × α} (h : e ∈ ofList rank es) : e ∈ es := by
  induction es using List.reverseRecOn with
  | nil => exact h
  | append_singleton es d ih =>
    rw [ofList_append_singleton] at h
    rcases mem_insert h with rfl | h
    · simp
    · exact List.mem_append_left _ (ih h)

omit [DecidableEq κ] in
theorem insert_length_le {k : κ} {v : α} {m : List (κ × α)} :
    (insert rank k v m).length ≤ m.length + 1 := by
  induction m with
  | nil => simp [insert]
  | cons e es ih =>
    simp only [insert]
    split
    · simp
    · split
      · simp
      · simpa using ih

omit [DecidableEq κ] in
theorem ofList_length_le {es : List (κ × α)} : (ofList rank es).length ≤ es.length := by
  induction es using List.reverseRecOn with
  | nil => simp [ofList]
  | append_singleton es e ih =>
    rw [ofList_append_singleton, List.length_append, List.length_singleton]
    have : (insert rank e.1 e.2 (ofList rank es)).length ≤ _ := insert_length_le
    omega

omit [DecidableEq κ] in
theorem sum_insert_le {w : κ × α → Nat} {k : κ} {v : α} {m : List (κ × α)} :
    ((insert rank k v m).map w).sum ≤ (m.map w).sum + w (k, v) := by
  induction m with
  | nil => simp [insert]
  | cons e es ih =>
    simp only [insert]
    split
    · simp only [List.map_cons, List.sum_cons]
      omega
    · split
      · simp only [List.map_cons, List.sum_cons]
        omega
      · simp only [List.map_cons, List.sum_cons]
        omega

omit [DecidableEq κ] in
/-- Whatever the entries weigh, the map weighs no more than they. -/
theorem sum_ofList_le {w : κ × α → Nat} {es : List (κ × α)} :
    ((ofList rank es).map w).sum ≤ (es.map w).sum := by
  induction es using List.reverseRecOn with
  | nil => simp [ofList]
  | append_singleton es e ih =>
    rw [ofList_append_singleton, List.map_append, List.sum_append]
    have : ((insert rank e.1 e.2 (ofList rank es)).map w).sum ≤ _ + w e := sum_insert_le
    simp only [List.map_singleton, List.sum_singleton]
    omega

/-- Inserting entries with distinct keys loses none of them. -/
theorem ofList_perm (hr : Function.Injective rank) {es : List (κ × α)}
    (h : (es.map Prod.fst).Nodup) : (ofList rank es).Perm es := by
  rw [List.perm_ext_iff_of_nodup ofList_sorted.nodup h.of_map]
  intro e
  have hrev : (es.reverse.map Prod.fst).Nodup := by
    rw [List.map_reverse, List.nodup_reverse]
    exact h
  refine ⟨mem_of_mem_ofList, fun he => ?_⟩
  rw [ofList_sorted.mem_iff, get_ofList hr]
  exact get_of_mem_of_nodup hrev (List.mem_reverse.2 he)

/-! ### Sorting by rank -/

/-- Lists with distinct ranks and the same members sort to the same list. -/
theorem insertionSort_eq_of_mem_iff {γ : Type} {r : γ → β} {l l' : List γ}
    (hl : (l.map r).Nodup) (hl' : (l'.map r).Nodup) (h : ∀ x, x ∈ l ↔ x ∈ l') :
    l.insertionSort (fun a b => r a ≤ r b) = l'.insertionSort (fun a b => r a ≤ r b) := by
  have : Std.Total (fun a b : γ => r a ≤ r b) := ⟨fun a b => le_total (r a) (r b)⟩
  have : IsTrans γ (fun a b : γ => r a ≤ r b) := ⟨fun _ _ _ => le_trans⟩
  have hp : l.Perm l' := (List.perm_ext_iff_of_nodup hl.of_map hl'.of_map).2 h
  refine List.Perm.eq_of_pairwise ?_
    (List.pairwise_insertionSort _ l) (List.pairwise_insertionSort _ l')
    ((List.perm_insertionSort _ l).trans (hp.trans (List.perm_insertionSort _ l').symm))
  intro a b ha hb hab hba
  have ha' : a ∈ l := (List.perm_insertionSort _ l).subset ha
  have hb' : b ∈ l := (h b).2 ((List.perm_insertionSort _ l').subset hb)
  exact List.inj_on_of_nodup_map hl ha' hb' (le_antisymm hab hba)

/-- A list with distinct ranks sorts strictly. -/
theorem pairwise_lt_insertionSort {γ : Type} {r : γ → β} {l : List γ} (hl : (l.map r).Nodup) :
    (l.insertionSort (fun a b => r a ≤ r b)).Pairwise (fun a b => r a < r b) := by
  have : Std.Total (fun a b : γ => r a ≤ r b) := ⟨fun a b => le_total (r a) (r b)⟩
  have : IsTrans γ (fun a b : γ => r a ≤ r b) := ⟨fun _ _ _ => le_trans⟩
  have hs := List.pairwise_insertionSort (fun a b : γ => r a ≤ r b) l
  have hn : ((l.insertionSort (fun a b => r a ≤ r b)).map r).Nodup :=
    ((List.perm_insertionSort _ l).map r).nodup_iff.2 hl
  rw [List.Nodup, List.pairwise_map] at hn
  exact (hs.and hn).imp fun h => lt_of_le_of_ne h.1 h.2

end Myco.Lib.OrdMap
