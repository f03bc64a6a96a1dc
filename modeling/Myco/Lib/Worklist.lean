import Mathlib.Algebra.GroupWithZero.Nat
import Mathlib.Algebra.Order.BigOperators.Group.List
import Mathlib.Algebra.Order.Group.Nat
import Myco.Lib.Search

/-!
# Loops over a work stack

`whileLoop step fuel` takes steps until there is none to take. It comes to an end, in a state that
an invariant describes, if every step brings a measure down (`whileLoop_ends`).

Two such loops over a graph: a `Walk` finds what can be reached from a vertex in one step or more
(`walkFrom_ends`), a `Flood` the component of a vertex in a graph whose edges go both ways, given
what earlier floods have visited (`flood_ends`). A walk discovers a vertex once, so the measure is
what is left to discover. A flood may stack a vertex more than once, but no more often than it
has neighbours.
-/

namespace Myco.Lib

/-! ### While -/

section While

variable {σ : Type} {step : σ → Option σ}

/-- Takes steps until there is none to take, or the fuel is gone. -/
def whileLoop (step : σ → Option σ) : Nat → σ → Option σ
  | 0, s => if (step s).isNone then some s else none
  | fuel + 1, s =>
    match step s with
    | none => some s
    | some s' => whileLoop step fuel s'

theorem whileLoop_ends {I : σ → Prop} {measure : σ → Nat}
    (hstep : ∀ s s', I s → step s = some s' → I s' ∧ measure s' < measure s) {fuel : Nat} {s : σ}
    (hs : I s) (hfuel : measure s ≤ fuel) :
    ∃ t, whileLoop step fuel s = some t ∧ I t ∧ step t = none := by
  induction fuel generalizing s with
  | zero =>
    cases h : step s with
    | none => exact ⟨s, by rw [whileLoop, h]; rfl, hs, h⟩
    | some s' =>
      have := (hstep s s' hs h).2
      omega
  | succ fuel ih =>
    cases h : step s with
    | none => exact ⟨s, by rw [whileLoop, h], hs, h⟩
    | some s' =>
      obtain ⟨hs', hlt⟩ := hstep s s' hs h
      rw [whileLoop, h]
      exact ih hs' (by omega)

end While

variable {α : Type} [DecidableEq α]

/-! ### Walking -/

/-- What has been found, the stack of what was found and has yet to be looked at, and what has been
looked at. -/
structure Walk (α : Type) where
  found : Search α
  seen : List α

def Walk.step (succ : α → List α) (w : Walk α) : Option (Walk α) :=
  match w.found.stack with
  | [] => none
  | x :: stack =>
    if x ∈ w.seen then some ⟨⟨w.found.visited, stack⟩, w.seen⟩
    else some ⟨Search.visitAll (succ x) ⟨w.found.visited, stack⟩, x :: w.seen⟩

/-- What is found on a walk from `start`. -/
def walkFrom (succ : α → List α) (fuel : Nat) (start : α) : Option (List α) :=
  (whileLoop (Walk.step succ) fuel ⟨⟨[], [start]⟩, []⟩).map fun w => w.found.visited

section Walk

variable {succ : α → List α} {vertices : List α} {start : α}

structure Walk.Valid (succ : α → List α) (vertices : List α) (start : α) (w : Walk α) : Prop where
  nodup : w.found.visited.Nodup
  bounded : w.found.visited ⊆ vertices
  sound : ∀ y ∈ w.found.visited, Relation.TransGen (Edge succ) start y
  stack : w.found.stack ⊆ start :: w.found.visited
  waits : ∀ x ∈ start :: w.found.visited, x ∈ w.found.stack ∨ x ∈ w.seen
  expanded : ∀ x ∈ w.seen, succ x ⊆ w.found.visited

/-- What is left to discover or to look at. -/
def Walk.left (vertices : List α) (w : Walk α) : Nat :=
  vertices.length - w.found.visited.length + w.found.stack.length

theorem Walk.Valid.step (hclosed : ∀ x, succ x ⊆ vertices) {w w' : Walk α}
    (h : w.Valid succ vertices start) (hw : w.step succ = some w') :
    w'.Valid succ vertices start ∧ w'.left vertices < w.left vertices := by
  unfold Walk.step at hw
  split at hw
  · cases hw
  · rename_i x stack hstack
    have hrest : stack ⊆ start :: w.found.visited := fun y hy =>
      h.stack (hstack ▸ List.mem_cons_of_mem x hy)
    split at hw
    · rename_i hx
      cases hw
      refine ⟨⟨h.nodup, h.bounded, h.sound, hrest, fun y hy => ?_, h.expanded⟩, ?_⟩
      · have := h.waits y hy
        rw [hstack, List.mem_cons] at this
        rcases this with (rfl | hy) | hy
        · exact .inr hx
        · exact .inl hy
        · exact .inr hy
      · show vertices.length - w.found.visited.length + stack.length < w.left vertices
        rw [Walk.left, hstack, List.length_cons]
        omega
    · cases hw
      obtain ⟨new, hvisited, hnew⟩ := Search.visitAll_stack (succ x) ⟨w.found.visited, stack⟩
      have hmem := fun y => @Search.mem_visitAll _ _ ⟨w.found.visited, stack⟩ (succ x) y
      have hnodup := @Search.visitAll_nodup _ _ ⟨w.found.visited, stack⟩ (succ x) h.nodup
      have hbounded : (Search.visitAll (succ x) ⟨w.found.visited, stack⟩).visited ⊆ vertices :=
        fun y hy => ((hmem y).1 hy).elim (fun hy => hclosed x hy) (fun hy => h.bounded hy)
      have hx : x ∈ start :: w.found.visited := h.stack (hstack ▸ List.mem_cons_self)
      refine ⟨⟨hnodup, hbounded, fun y hy => ?_, ?_, fun y hy => ?_, fun y hy => ?_⟩, ?_⟩
      · rcases (hmem y).1 hy with hy | hy
        · rcases List.mem_cons.1 hx with rfl | hx
          · exact .single hy
          · exact .tail (h.sound x hx) hy
        · exact h.sound y hy
      · rw [hvisited, hnew]
        rintro y hy
        rcases List.mem_append.1 hy with hy | hy
        · exact List.mem_cons_of_mem _ (List.mem_append_left _ hy)
        · exact (List.mem_cons.1 (hrest hy)).elim (fun h => h ▸ List.mem_cons_self)
            fun hy => List.mem_cons_of_mem _ (List.mem_append_right _ hy)
      · have hold : y ∈ start :: w.found.visited → y ∈ new ++ stack ∨ y ∈ x :: w.seen := by
          intro hy
          have := h.waits y hy
          rw [hstack, List.mem_cons] at this
          rcases this with (rfl | hy) | hy
          · exact .inr List.mem_cons_self
          · exact .inl (List.mem_append_right _ hy)
          · exact .inr (List.mem_cons_of_mem _ hy)
        rw [hnew]
        rw [hvisited, List.mem_cons, List.mem_append] at hy
        rcases hy with hy | hy | hy
        · exact hold (List.mem_cons.2 (.inl hy))
        · exact .inl (List.mem_append_left _ hy)
        · exact hold (List.mem_cons_of_mem _ hy)
      · rcases List.mem_cons.1 hy with rfl | hy
        · exact fun z hz => (hmem z).2 (.inl hz)
        · exact fun z hz => (hmem z).2 (.inr (h.expanded y hy hz))
      · have hlen : (new ++ w.found.visited).length ≤ vertices.length :=
          (hvisited ▸ hnodup.subperm hbounded).length_le
        unfold Walk.left
        rw [hvisited, hnew, hstack]
        simp only [List.length_append, List.length_cons] at hlen ⊢
        omega

/-- A walk ends, and has found what is reached in one step or more. -/
theorem walkFrom_ends (hclosed : ∀ x, succ x ⊆ vertices) {fuel : Nat}
    (hfuel : vertices.length + 1 ≤ fuel) : ∃ found, walkFrom succ fuel start = some found ∧
      ∀ y, y ∈ found ↔ Relation.TransGen (Edge succ) start y := by
  have hstart : Walk.Valid succ vertices start ⟨⟨[], [start]⟩, []⟩ :=
    ⟨List.nodup_nil, List.nil_subset _, by simp, by simp, by simp, by simp⟩
  obtain ⟨w, hw, hv, hend⟩ := @whileLoop_ends _ _ (Walk.Valid succ vertices start)
    (Walk.left vertices) (fun w w' => Walk.Valid.step hclosed) fuel _ hstart hfuel
  refine ⟨w.found.visited, by rw [walkFrom, hw]; rfl, fun y => ⟨hv.sound y, fun h => ?_⟩⟩
  have hnil : w.found.stack = [] := by
    unfold Walk.step at hend
    split at hend
    · assumption
    · split at hend <;> cases hend
  have hseen : ∀ x ∈ start :: w.found.visited, succ x ⊆ w.found.visited := by
    intro x hx
    have := hv.waits x hx
    rw [hnil] at this
    exact hv.expanded x (this.resolve_left List.not_mem_nil)
  induction h with
  | single h => exact hseen start List.mem_cons_self h
  | tail _ h ih => exact hseen _ (List.mem_cons_of_mem _ ih) h

end Walk

/-! ### Flooding -/

/-- What all floods have visited, what this one has, and the stack. -/
structure Flood (α : Type) where
  visited : List α
  component : List α
  stack : List α

def Flood.step (adj : α → List α) (w : Flood α) : Option (Flood α) :=
  match w.stack with
  | [] => none
  | x :: stack =>
    if x ∈ w.visited then some { w with stack }
    else some ⟨x :: w.visited, x :: w.component,
      ((adj x).filter (· ∉ x :: w.visited)).reverse ++ stack⟩

/-- The flood that starts at `start`, after others. -/
def flood (adj : α → List α) (fuel : Nat) (visited : List α) (start : α) : Option (Flood α) :=
  whileLoop (Flood.step adj) fuel ⟨visited, [], [start]⟩

section Flood

variable {adj : α → List α} {vertices visited : List α} {start : α}

structure Flood.Valid (adj : α → List α) (vertices visited : List α) (start : α) (w : Flood α) :
    Prop where
  nodup : w.component.Nodup
  parts : ∀ y, y ∈ w.visited ↔ y ∈ visited ∨ y ∈ w.component
  apart : ∀ y ∈ w.component, y ∉ visited
  bounded : w.stack ⊆ vertices
  sound : ∀ y, y ∈ w.component ∨ y ∈ w.stack → Relation.ReflTransGen (Edge adj) start y
  started : start ∈ w.component ∨ start ∈ w.stack
  expanded : ∀ x ∈ w.component, ∀ y ∈ adj x, y ∈ w.visited ∨ y ∈ w.stack

/-- What is stacked, and what the vertices that have not been visited may yet stack. -/
def Flood.left (adj : α → List α) (vertices : List α) (w : Flood α) : Nat :=
  w.stack.length + ((vertices.filter (· ∉ w.visited)).map fun x => (adj x).length).sum

theorem sum_filter_cons {f : α → Nat} {x : α} (hx : x ∈ vertices) (hnew : x ∉ visited) :
    ((vertices.filter (· ∉ x :: visited)).map f).sum + f x ≤
      ((vertices.filter (· ∉ visited)).map f).sum := by
  have hle : ∀ vs : List α, ((vs.filter (· ∉ x :: visited)).map f).sum ≤
      ((vs.filter (· ∉ visited)).map f).sum := fun vs =>
    ((List.monotone_filter_right vs fun y hy => by
      simp only [decide_eq_true_eq, List.mem_cons, not_or] at hy ⊢
      exact hy.2).map f).sum_le_sum fun _ _ => Nat.zero_le _
  obtain ⟨front, back, rfl⟩ := List.append_of_mem hx
  have hfront := hle front
  have hback := hle back
  simp only [List.filter_append, List.map_append, List.sum_append, List.filter_cons, hnew,
    not_false_eq_true, decide_true, if_true, List.mem_cons, true_or, not_true_eq_false,
    decide_false, Bool.false_eq_true, if_false, List.map_cons, List.sum_cons] at hfront hback ⊢
  omega

theorem Flood.Valid.step (hclosed : ∀ x, adj x ⊆ vertices) (hnew : start ∉ visited)
    {w w' : Flood α}
    (h : w.Valid adj vertices visited start) (hw : w.step adj = some w') :
    w'.Valid adj vertices visited start ∧ w'.left adj vertices < w.left adj vertices := by
  unfold Flood.step at hw
  split at hw
  · cases hw
  · rename_i x stack hstack
    have hx : x ∈ w.stack := hstack ▸ List.mem_cons_self
    have hrest : stack ⊆ w.stack := fun y hy => hstack ▸ List.mem_cons_of_mem x hy
    split at hw
    · rename_i hseen
      cases hw
      refine ⟨⟨h.nodup, h.parts, h.apart, fun y hy => h.bounded (hrest hy),
        fun y hy => h.sound y (hy.imp_right fun hy => hrest hy), ?_, fun z hz y hy => ?_⟩, ?_⟩
      · rcases h.started with hs | hs
        · exact .inl hs
        · rw [hstack, List.mem_cons] at hs
          rcases hs with rfl | hs
          · exact .inl (((h.parts _).1 hseen).resolve_left hnew)
          · exact .inr hs
      · rcases h.expanded z hz y hy with hy | hy
        · exact .inl hy
        · rw [hstack, List.mem_cons] at hy
          rcases hy with rfl | hy
          · exact .inl hseen
          · exact .inr hy
      · show stack.length + ((vertices.filter (· ∉ w.visited)).map _).sum < w.left adj vertices
        rw [Flood.left, hstack, List.length_cons]
        omega
    · rename_i hseen
      cases hw
      have hpush : ∀ y, y ∈ ((adj x).filter (· ∉ x :: w.visited)).reverse ++ stack ↔
          (y ∈ adj x ∧ y ∉ x :: w.visited) ∨ y ∈ stack := by
        intro y
        simp
      have hreach := h.sound x (.inr hx)
      have hnot : x ∉ w.component := fun hc => hseen ((h.parts x).2 (.inr hc))
      refine ⟨⟨List.nodup_cons.2 ⟨hnot, h.nodup⟩, fun y => ?_, fun y hy => ?_, fun y hy => ?_,
        fun y hy => ?_, ?_, fun z hz y hy => ?_⟩, ?_⟩
      · rw [List.mem_cons, List.mem_cons, h.parts]
        tauto
      · rcases List.mem_cons.1 hy with rfl | hy
        · exact fun hv => hseen ((h.parts y).2 (.inl hv))
        · exact h.apart y hy
      · rcases (hpush y).1 hy with ⟨hy, -⟩ | hy
        · exact hclosed x hy
        · exact h.bounded (hrest hy)
      · rw [hpush, List.mem_cons] at hy
        rcases hy with (rfl | hy) | ⟨hy, -⟩ | hy
        · exact hreach
        · exact h.sound y (.inl hy)
        · exact hreach.tail hy
        · exact h.sound y (.inr (hrest hy))
      · rw [hpush, List.mem_cons]
        rcases h.started with hs | hs
        · exact .inl (.inr hs)
        · rw [hstack, List.mem_cons] at hs
          exact hs.elim (fun hs => .inl (.inl hs)) fun hs => .inr (.inr hs)
      · rw [hpush]
        by_cases hyv : y ∈ x :: w.visited
        · exact .inl hyv
        · rcases List.mem_cons.1 hz with rfl | hz
          · exact .inr (.inl ⟨hy, hyv⟩)
          · rcases h.expanded z hz y hy with hy | hy
            · exact .inl (List.mem_cons_of_mem x hy)
            · rw [hstack, List.mem_cons] at hy
              rcases hy with rfl | hy
              · exact .inl List.mem_cons_self
              · exact .inr (.inr hy)
      · have hsum := sum_filter_cons (f := fun x => (adj x).length) (h.bounded hx) hseen
        have hlen : ((adj x).filter (· ∉ x :: w.visited)).length ≤ (adj x).length :=
          List.length_filter_le ..
        show (_ ++ stack).length + ((vertices.filter (· ∉ x :: w.visited)).map _).sum <
          w.left adj vertices
        rw [Flood.left, hstack, List.length_append, List.length_reverse, List.length_cons]
        omega

/-- A flood ends, and has visited the component of its start. -/
theorem flood_ends (hclosed : ∀ x, adj x ⊆ vertices) (hstart : start ∈ vertices)
    (hsymm : ∀ x, ∀ y ∈ adj x, x ∈ adj y) (hvisited : ∀ x ∈ visited, adj x ⊆ visited)
    (hnew : start ∉ visited) {fuel : Nat}
    (hfuel : 1 + (vertices.map fun x => (adj x).length).sum ≤ fuel) :
    ∃ w, flood adj fuel visited start = some w ∧ w.component.Nodup ∧
      (∀ y, y ∈ w.visited ↔ y ∈ visited ∨ y ∈ w.component) ∧
      (∀ y ∈ w.component, y ∉ visited) ∧
      ∀ y, y ∈ w.component ↔ Relation.ReflTransGen (Edge adj) start y := by
  have hbegin : Flood.Valid adj vertices visited start ⟨visited, [], [start]⟩ :=
    ⟨List.nodup_nil, by simp, by simp, by simpa using hstart, by simp [Relation.ReflTransGen.refl],
      by simp, by simp⟩
  have hmeasure : Flood.left adj vertices ⟨visited, [], [start]⟩ ≤ fuel := by
    refine le_trans (Nat.add_le_add_left ?_ 1) hfuel
    exact ((List.filter_sublist ..).map _).sum_le_sum fun _ _ => Nat.zero_le _
  obtain ⟨w, hw, hv, hend⟩ := @whileLoop_ends _ _ (Flood.Valid adj vertices visited start)
    (Flood.left adj vertices) (fun w w' => Flood.Valid.step hclosed hnew) fuel _ hbegin hmeasure
  have hnil : w.stack = [] := by
    unfold Flood.step at hend
    split at hend
    · assumption
    · split at hend <;> cases hend
  refine ⟨w, hw, hv.nodup, hv.parts, hv.apart, fun y => ⟨fun hy => hv.sound y (.inl hy),
    fun h => ?_⟩⟩
  induction h with
  | refl => exact hv.started.resolve_right (hnil ▸ List.not_mem_nil)
  | @tail x y _ hxy hx =>
    -- what other floods have visited has no neighbours that they have not
    have hy := (hv.expanded x hx y hxy).resolve_right (hnil ▸ List.not_mem_nil)
    rcases (hv.parts y).1 hy with hy | hy
    · exact absurd (hvisited y hy (hsymm x y hxy)) (hv.apart x hx)
    · exact hy

end Flood

end Myco.Lib
