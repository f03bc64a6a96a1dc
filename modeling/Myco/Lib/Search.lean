import Mathlib.Data.List.Perm.Subperm
import Mathlib.Logic.Relation

/-!
# Searching a graph with a work stack

`search` keeps the vertices it has visited and a stack of those it has yet to expand; a vertex
goes onto the stack when it is first visited, and so at most once. With as much fuel as there are
vertices to visit it comes to the end of its stack (`search_stack`), and what it has visited then
is what the roots reach (`mem_reachable_iff`).
-/

namespace Myco.Lib

variable {α : Type} [DecidableEq α]

structure Search (α : Type) where
  visited : List α
  stack : List α

namespace Search

/-- `if visited.insert(x) { stack.push(x) }` -/
def visit (s : Search α) (x : α) : Search α :=
  if x ∈ s.visited then s else ⟨x :: s.visited, x :: s.stack⟩

def visitAll (xs : List α) (s : Search α) : Search α := xs.foldl visit s

end Search

/-- Pops a vertex and visits its successors, until the stack is empty or the fuel is gone. -/
def search (succ : α → List α) : Nat → Search α → Search α
  | 0, s => s
  | fuel + 1, s =>
    match s.stack with
    | [] => s
    | x :: stack => search succ fuel (Search.visitAll (succ x) ⟨s.visited, stack⟩)

/-- What is visited from `roots`. -/
def reachable (succ : α → List α) (fuel : Nat) (roots : List α) : List α :=
  (search succ fuel (Search.visitAll roots ⟨[], []⟩)).visited

/-- `b` is a successor of `a`. -/
def Edge (succ : α → List α) (a b : α) : Prop := b ∈ succ a

/-! ### What visiting does -/

namespace Search

variable {s : Search α} {xs : List α}

theorem visitAll_cons {x : α} : visitAll (x :: xs) s = visitAll xs (s.visit x) := rfl

theorem mem_visit {x y : α} : y ∈ (s.visit x).visited ↔ y = x ∨ y ∈ s.visited := by
  unfold visit
  split
  · rename_i h
    constructor
    · exact .inr
    · rintro (rfl | hy)
      · exact h
      · exact hy
  · exact List.mem_cons

theorem mem_visitAll {y : α} : y ∈ (visitAll xs s).visited ↔ y ∈ xs ∨ y ∈ s.visited := by
  induction xs generalizing s with
  | nil => simp [visitAll]
  | cons x xs ih =>
    rw [visitAll_cons, ih, mem_visit, List.mem_cons]
    constructor
    · rintro (h | h | h)
      · exact .inl (.inr h)
      · exact .inl (.inl h)
      · exact .inr h
    · rintro ((h | h) | h)
      · exact .inr (.inl h)
      · exact .inl h
      · exact .inr (.inr h)

/-- The vertices wait on the stack until they are expanded, and each waits once. -/
structure Valid (succ : α → List α) (s : Search α) : Prop where
  nodup : s.visited.Nodup
  stack : s.stack ⊆ s.visited
  expanded : ∀ x ∈ s.visited, x ∉ s.stack → succ x ⊆ s.visited

/-- Visiting puts on the stack what it adds to the visited. -/
theorem visitAll_stack (xs : List α) (s : Search α) :
    ∃ new, (visitAll xs s).visited = new ++ s.visited ∧
      (visitAll xs s).stack = new ++ s.stack := by
  induction xs generalizing s with
  | nil => exact ⟨[], rfl, rfl⟩
  | cons x xs ih =>
    obtain ⟨new, h1, h2⟩ := ih (s.visit x)
    rw [visitAll_cons, h1, h2]
    unfold visit
    split
    · exact ⟨new, rfl, rfl⟩
    · exact ⟨new ++ [x], by simp, by simp⟩

theorem visitAll_nodup (h : s.visited.Nodup) : (visitAll xs s).visited.Nodup := by
  induction xs generalizing s with
  | nil => exact h
  | cons x xs ih =>
    refine ih ?_
    unfold visit
    split
    · exact h
    · exact List.nodup_cons.2 ⟨‹_›, h⟩

variable {succ : α → List α}

theorem valid_visitAll_roots : Valid succ (visitAll xs ⟨[], []⟩) := by
  obtain ⟨new, h1, h2⟩ := visitAll_stack xs ⟨[], []⟩
  rw [List.append_nil] at h1 h2
  refine ⟨visitAll_nodup List.nodup_nil, by rw [h1, h2]; exact List.Subset.refl _, ?_⟩
  intro x hx hn
  rw [h1] at hx
  rw [h2] at hn
  exact absurd hx hn

theorem Valid.expand {x : α} {stack : List α} (h : Valid succ s) (hs : s.stack = x :: stack) :
    Valid succ (visitAll (succ x) ⟨s.visited, stack⟩) := by
  obtain ⟨new, h1, h2⟩ := visitAll_stack (succ x) ⟨s.visited, stack⟩
  refine ⟨visitAll_nodup h.nodup, ?_, ?_⟩
  · rw [h1, h2]
    have hstack : stack ⊆ s.visited := fun y hy => h.stack (hs ▸ List.mem_cons_of_mem _ hy)
    exact List.append_subset.2 ⟨List.subset_append_left _ _,
      List.Subset.trans hstack (List.subset_append_right _ _)⟩
  · intro y hy hn z hz
    rw [mem_visitAll]
    rw [h1] at hy
    rw [h2, List.mem_append, not_or] at hn
    have hy : y ∈ s.visited := (List.mem_append.1 hy).resolve_left hn.1
    by_cases hyx : y = x
    · exact .inl (hyx ▸ hz)
    · refine .inr (h.expanded y hy (fun hmem => ?_) hz)
      rw [hs] at hmem
      exact hn.2 ((List.mem_cons.1 hmem).resolve_left hyx)

end Search

/-! ### What a search finds -/

section

variable {succ : α → List α} {fuel : Nat} {s : Search α} {vertices : List α}

/-- There is nothing left to visit but what `vertices` has. -/
theorem search_stack (hv : s.Valid succ) (hsub : s.visited ⊆ vertices)
    (hclosed : ∀ x ∈ vertices, succ x ⊆ vertices)
    (hfuel : vertices.length + s.stack.length ≤ fuel + s.visited.length) :
    (search succ fuel s).Valid succ ∧ (search succ fuel s).stack = [] := by
  induction fuel generalizing s with
  | zero =>
    have hlen : s.visited.length ≤ vertices.length := (hv.nodup.subperm hsub).length_le
    have hnil : s.stack = [] := List.length_eq_zero_iff.1 (by omega)
    exact ⟨hv, hnil⟩
  | succ fuel ih =>
    unfold search
    split
    · exact ⟨hv, ‹_›⟩
    · rename_i x stack hs
      obtain ⟨new, h1, h2⟩ := Search.visitAll_stack (succ x) ⟨s.visited, stack⟩
      refine ih (hv.expand hs) ?_ ?_
      · intro y hy
        rcases Search.mem_visitAll.1 hy with hy | hy
        · exact hclosed x (hsub (hv.stack (hs ▸ List.mem_cons_self))) hy
        · exact hsub hy
      · rw [hs, List.length_cons] at hfuel
        rw [h1, h2, List.length_append, List.length_append]
        show vertices.length + (new.length + stack.length) ≤ fuel + (new.length + s.visited.length)
        omega

/-- A search visits nothing that what it began with does not reach. -/
theorem search_sound (hs : s.stack ⊆ s.visited) {y : α} (h : y ∈ (search succ fuel s).visited) :
    ∃ x ∈ s.visited, Relation.ReflTransGen (Edge succ) x y := by
  induction fuel generalizing s with
  | zero => exact ⟨y, h, .refl⟩
  | succ fuel ih =>
    unfold search at h
    split at h
    · exact ⟨y, h, .refl⟩
    · rename_i x stack hstack
      have hx : x ∈ s.visited := hs (hstack ▸ List.mem_cons_self)
      obtain ⟨new, h1, h2⟩ := Search.visitAll_stack (succ x) ⟨s.visited, stack⟩
      have hsub : (Search.visitAll (succ x) ⟨s.visited, stack⟩).stack ⊆
          (Search.visitAll (succ x) ⟨s.visited, stack⟩).visited := by
        rw [h1, h2]
        exact List.append_subset.2 ⟨List.subset_append_left _ _, fun z hz =>
          List.mem_append_right _ (hs (hstack ▸ List.mem_cons_of_mem _ hz))⟩
      obtain ⟨z, hz, hreach⟩ := ih hsub h
      rcases Search.mem_visitAll.1 hz with hz | hz
      · exact ⟨x, hx, .head hz hreach⟩
      · exact ⟨z, hz, hreach⟩

/-- With fuel for every vertex, a search comes to the end of its stack. -/
theorem search_ends {roots : List α} (hroots : roots ⊆ vertices)
    (hclosed : ∀ x ∈ vertices, succ x ⊆ vertices) (hfuel : vertices.length ≤ fuel) :
    (search succ fuel (Search.visitAll roots ⟨[], []⟩)).Valid succ ∧
      (search succ fuel (Search.visitAll roots ⟨[], []⟩)).stack = [] := by
  obtain ⟨new, h1, h2⟩ := Search.visitAll_stack roots (⟨[], []⟩ : Search α)
  have hsub : (Search.visitAll roots (⟨[], []⟩ : Search α)).visited ⊆ vertices := by
    intro z hz
    rcases Search.mem_visitAll.1 hz with hz | hz
    · exact hroots hz
    · cases hz
  refine search_stack Search.valid_visitAll_roots hsub hclosed ?_
  rw [h1, h2]
  exact Nat.add_le_add_right hfuel _

/-- With fuel for every vertex, `reachable` is reachability. -/
theorem mem_reachable_iff {roots : List α} (hroots : roots ⊆ vertices)
    (hclosed : ∀ x ∈ vertices, succ x ⊆ vertices) (hfuel : vertices.length ≤ fuel) {y : α} :
    y ∈ reachable succ fuel roots ↔ ∃ r ∈ roots, Relation.ReflTransGen (Edge succ) r y := by
  have hbegin : ∀ z, z ∈ (Search.visitAll roots (⟨[], []⟩ : Search α)).visited ↔ z ∈ roots := by
    intro z
    rw [Search.mem_visitAll]
    simp
  have hvalid : (Search.visitAll roots ⟨[], []⟩).Valid succ := Search.valid_visitAll_roots
  constructor
  · intro h
    obtain ⟨x, hx, hreach⟩ := search_sound hvalid.stack h
    exact ⟨x, (hbegin x).1 hx, hreach⟩
  · rintro ⟨r, hr, hreach⟩
    obtain ⟨hv, hnil⟩ := search_ends hroots hclosed hfuel
    have hmono : ∀ n (t : Search α) z, z ∈ t.visited → z ∈ (search succ n t).visited := by
      intro n
      induction n with
      | zero => exact fun t z hz => hz
      | succ n ih =>
        intro t z hz
        unfold search
        split
        · exact hz
        · exact ih _ z (Search.mem_visitAll.2 (.inr hz))
    induction hreach with
    | refl => exact hmono _ _ _ ((hbegin r).2 hr)
    | tail _ hstep ih => exact hv.expanded _ ih (by simp [hnil]) hstep

end

end Myco.Lib
