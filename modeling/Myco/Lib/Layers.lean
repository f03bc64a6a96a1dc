import Mathlib.Data.Finset.Lattice.Fold
import Mathlib.Data.Fintype.Basic
import Mathlib.Data.Fintype.Card
import Mathlib.Order.Lattice.Nat

/-!
# Layers of announcements

Parties announce something each and hear of each other's announcements, in some order of moves
(`Move`). An announcement is in layer 0 if its party had heard none before, and else in the layer
after the highest of those that it had heard: its depth in the order in which announcements were
heard before others were made (`layersOf`).

Where nothing is heard before it is announced, nobody's layer reaches the number of announcements
(`Layers.Sound`).
-/

namespace Myco.Lib

inductive Move (α : Type) where
  | announce (i : α)
  /-- the announcement of `i` reaches `j` -/
  | deliver (i j : α)
  | other (j : α)
deriving DecidableEq

/-- Whose announcements each party has heard, its own among them, and the layer of each
announcement. -/
structure Layers (α : Type) where
  heard : α → Finset α
  layer : α → Nat

variable {α : Type} [DecidableEq α]

namespace Layers

def start : Layers α := ⟨fun _ => ∅, fun _ => 0⟩

/-- The layer after all that `j` has heard. -/
def above (l : Layers α) (j : α) : Nat := (l.heard j).sup fun i => l.layer i + 1

def hear (l : Layers α) (i j : α) : α → Finset α :=
  Function.update l.heard j (insert i (l.heard j))

def move (l : Layers α) : Move α → Layers α
  | .announce i => ⟨l.hear i i, Function.update l.layer i (l.above i)⟩
  | .deliver i j => ⟨l.hear i j, l.layer⟩
  | .other _ => l

end Layers

def layersOf (ms : List (Move α)) : Layers α := ms.foldl Layers.move .start

variable {l : Layers α} {i j k : α} {m : Move α} {ms : List (Move α)}

namespace Layers

theorem layersOf_append_singleton : layersOf (ms ++ [m]) = (layersOf ms).move m := by
  rw [layersOf, List.foldl_append]
  rfl

/-! ### What is heard -/

theorem hear_self : l.hear i j j = insert i (l.heard j) := Function.update_self _ _ _

theorem hear_of_ne (h : k ≠ j) : l.hear i j k = l.heard k := Function.update_of_ne h _ _

theorem mem_hear : k ∈ l.hear i j j ↔ k = i ∨ k ∈ l.heard j := by
  rw [hear_self, Finset.mem_insert]

theorem subset_hear : l.heard k ⊆ l.hear i j k := by
  by_cases h : k = j
  · subst h
    rw [hear_self]
    exact Finset.subset_insert _ _
  · rw [hear_of_ne h]

theorem subset_move : l.heard k ⊆ (l.move m).heard k := by
  cases m with
  | announce i => exact subset_hear
  | deliver i j => exact subset_hear
  | other j => exact fun _ h => h

/-- Whatever was delivered has been heard. -/
theorem mem_heard_of_deliver (h : Move.deliver i j ∈ ms) : i ∈ (layersOf ms).heard j := by
  induction ms using List.reverseRecOn with
  | nil => cases h
  | append_singleton ms m ih =>
    rw [layersOf_append_singleton]
    rcases List.mem_append.1 h with h | h
    · exact subset_move (ih h)
    · rw [← List.mem_singleton.1 h]
      exact mem_hear.2 (.inl rfl)

theorem mem_heard_of_announce (h : Move.announce i ∈ ms) : i ∈ (layersOf ms).heard i := by
  induction ms using List.reverseRecOn with
  | nil => cases h
  | append_singleton ms m ih =>
    rw [layersOf_append_singleton]
    rcases List.mem_append.1 h with h | h
    · exact subset_move (ih h)
    · rw [← List.mem_singleton.1 h]
      exact mem_hear.2 (.inl rfl)

/-! ### How high the layers are -/

variable [Fintype α]

/-- Who has announced something. -/
def announced (l : Layers α) : Finset α := Finset.univ.filter fun i => i ∈ l.heard i

theorem mem_announced : i ∈ l.announced ↔ i ∈ l.heard i := by simp [announced]

/-- Only announcements are heard, and each is in a layer below their number. -/
structure Sound (l : Layers α) : Prop where
  heard : ∀ i j, i ∈ l.heard j → i ∈ l.announced
  layer_lt : ∀ i ∈ l.announced, l.layer i < l.announced.card

theorem sound_start : (start : Layers α).Sound where
  heard _ _ h := nomatch h
  layer_lt _ h := nomatch mem_announced.1 h

/-- An announcement is made once, and heard after it is made. -/
def Fair (l : Layers α) : Move α → Prop
  | .announce i => i ∉ l.announced
  | .deliver i j => i ≠ j ∧ i ∈ l.announced
  | .other _ => True

theorem announced_announce : (l.move (.announce i)).announced = insert i l.announced := by
  ext k
  rw [Finset.mem_insert, mem_announced, mem_announced]
  by_cases hk : k = i
  · subst hk
    exact iff_of_true (mem_hear.2 (.inl rfl)) (.inl rfl)
  · show k ∈ l.hear i i k ↔ _
    rw [hear_of_ne hk]
    simp [hk]

theorem announced_deliver (h : i ≠ j) : (l.move (.deliver i j)).announced = l.announced := by
  ext k
  rw [mem_announced, mem_announced]
  show k ∈ l.hear i j k ↔ _
  by_cases hk : k = j
  · subst hk
    rw [mem_hear, or_iff_right h.symm]
  · rw [hear_of_ne hk]

/-- What one has heard is below the number of announcements. -/
theorem Sound.above_le (hl : l.Sound) : l.above j ≤ l.announced.card :=
  Finset.sup_le fun i hi => hl.layer_lt i (hl.heard i j hi)

theorem Sound.move (hl : l.Sound) (hm : l.Fair m) : (l.move m).Sound := by
  cases m with
  | announce i =>
    constructor
    · intro k j hk
      rw [announced_announce, Finset.mem_insert]
      by_cases hj : j = i
      · subst hj
        exact (mem_hear.1 hk).imp_right (hl.heard k j)
      · have hk' : k ∈ l.hear i i j := hk
        rw [hear_of_ne hj] at hk'
        exact .inr (hl.heard k j hk')
    · intro k hk
      rw [announced_announce, Finset.card_insert_of_notMem hm]
      by_cases hki : k = i
      · subst hki
        show Function.update l.layer k (l.above k) k < _
        rw [Function.update_self]
        exact Nat.lt_succ_of_le hl.above_le
      · rw [announced_announce] at hk
        show Function.update l.layer i (l.above i) k < _
        rw [Function.update_of_ne hki]
        have := hl.layer_lt k (Finset.mem_of_mem_insert_of_ne hk hki)
        omega
  | deliver i j =>
    obtain ⟨hne, hi⟩ := hm
    constructor
    · intro k j' hk
      rw [announced_deliver hne]
      by_cases hj : j' = j
      · subst hj
        rcases mem_hear.1 hk with rfl | hk
        · exact hi
        · exact hl.heard k j' hk
      · have hk' : k ∈ l.hear i j j' := hk
        rw [hear_of_ne hj] at hk'
        exact hl.heard k j' hk'
    · rw [announced_deliver hne]
      exact hl.layer_lt
  | other j => exact hl

end Layers

end Myco.Lib
