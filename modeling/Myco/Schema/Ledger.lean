import Myco.Schema.DagTamper

/-!
# A DAG and the calls that built it

A process never builds its DAG but by `insert_node`. `Ledger` keeps the calls beside the DAG they
built, so that what a run needs of BLAKE3 can be said of the messages that the run hashed: a
ledger is `Sound` when no two of its calls collide. In a sound ledger a call whose first parent is
the tip always adds its node (`push_tip`). Every DAG that satisfies the invariant is some ledger's
(`Dag.Inv.exists_ledger`).
-/

namespace Myco.Schema

open Myco.Lib Myco.Canonical

structure Ledger (blake3 : Bytes → NodeHash) where
  calls : List Insertion
  dag : Dag
  built : dag = insertAll blake3 calls

variable {blake3 : Bytes → NodeHash}

namespace Ledger

def new : Ledger blake3 := ⟨[], .new, rfl⟩

def nodes (l : Ledger blake3) : List DagNode := l.dag.iterInInsertionOrder

def tip (l : Ledger blake3) : Option NodeHash := l.dag.tip

/-- The ledger after one more call. -/
def push (l : Ledger blake3) (c : Insertion) : Ledger blake3 where
  calls := l.calls ++ [c]
  dag := (Schema.insertNode blake3 l.dag c).2
  built := by rw [l.built, insertAll, insertAll, List.foldl_append, List.foldl_cons, List.foldl_nil]

/-- What `insert_node` answers. -/
def answer (l : Ledger blake3) (c : Insertion) : Except DagError NodeHash :=
  (Schema.insertNode blake3 l.dag c).1

/-- No two calls collide. -/
def Sound (l : Ledger blake3) : Prop := CollisionFree blake3 (l.calls.map (Insertion.node blake3))

instance (l : Ledger blake3) : Decidable l.Sound :=
  inferInstanceAs (Decidable (∀ m ∈ l.calls.map (Insertion.node blake3),
    ∀ n ∈ l.calls.map (Insertion.node blake3),
      merkleHash blake3 m.parentHashes m.content = merkleHash blake3 n.parentHashes n.content →
      m.parentHashes = n.parentHashes ∧ m.content = n.content))

variable {l : Ledger blake3}

theorem exists_nodes (l : Ledger blake3) :
    ∃ ns, Recorded blake3 ns ∧ l.dag = .ofNodes ns ∧ l.nodes = ns := by
  obtain ⟨ns, hr, hd⟩ := insertAll_recorded blake3 l.calls
  refine ⟨ns, hr, l.built.trans hd, ?_⟩
  rw [nodes, l.built, hd, Dag.iter_ofNodes hr.nodup]

theorem recorded (l : Ledger blake3) : Recorded blake3 l.nodes := by
  obtain ⟨ns, hr, -, hns⟩ := l.exists_nodes
  exact hns ▸ hr

theorem dag_eq (l : Ledger blake3) : l.dag = .ofNodes l.nodes := by
  obtain ⟨ns, -, hd, hns⟩ := l.exists_nodes
  rw [hns, hd]

theorem tip_eq (l : Ledger blake3) : l.tip = (l.nodes.map DagNode.hash).getLast? := by
  rw [tip, dag_eq]
  rfl

theorem get_eq_some {k : NodeHash} {n : DagNode} :
    l.dag.get k = some n ↔ n ∈ l.nodes ∧ n.hash = k := by
  rw [dag_eq, l.recorded.get_eq_some]

/-- A call is refused, or finds its node already there, or adds its node at the end. -/
theorem push_cases (l : Ledger blake3) (c : Insertion) :
    (∃ e, Refused blake3 l.nodes c e ∧ l.answer c = .error e ∧ (l.push c).nodes = l.nodes) ∨
    (∃ n ∈ l.nodes, n.hash = (c.node blake3).hash ∧ n.parentHashes = c.parentHashes ∧
      n.content = c.content ∧ l.answer c = .ok n.hash ∧ (l.push c).nodes = l.nodes) ∨
    (l.answer c = .ok (c.node blake3).hash ∧ (l.push c).nodes = l.nodes ++ [c.node blake3]) := by
  have hpush : ∀ ns, Recorded blake3 ns → (Schema.insertNode blake3 l.dag c).2 = .ofNodes ns →
      (l.push c).nodes = ns := by
    intro ns hr hd
    show (Schema.insertNode blake3 l.dag c).2.iterInInsertionOrder = ns
    rw [hd, Dag.iter_ofNodes hr.nodup]
  have hr := l.recorded
  rw [l.dag_eq] at hpush
  rw [answer, l.dag_eq]
  rcases insertNode_cases hr c with ⟨e, href, he⟩ | ⟨n, hn, h1, h2, h3, he⟩ | ⟨hr', he⟩
  · exact .inl ⟨e, href, by rw [he], hpush _ hr (by rw [he])⟩
  · exact .inr (.inl ⟨n, hn, h1, h2, h3, by rw [he], hpush _ hr (by rw [he])⟩)
  · exact .inr (.inr ⟨by rw [he], hpush _ hr' (by rw [he])⟩)

/-- Every node was once asked for. -/
theorem mem_calls (l : Ledger blake3) {n : DagNode} (h : n ∈ l.nodes) :
    n ∈ l.calls.map (Insertion.node blake3) := by
  obtain ⟨calls, dag, rfl⟩ := l
  induction calls using List.reverseRecOn with
  | nil => cases h
  | append_singleton calls c ih =>
    rw [List.map_append]
    have hpush : (⟨calls ++ [c], insertAll blake3 (calls ++ [c]), rfl⟩ : Ledger blake3) =
        push ⟨calls, insertAll blake3 calls, rfl⟩ c := by
      simp [push, insertAll, List.foldl_append]
    rw [hpush] at h
    rcases push_cases ⟨calls, insertAll blake3 calls, rfl⟩ c with
      ⟨-, -, -, he⟩ | ⟨-, -, -, -, -, -, he⟩ | ⟨-, he⟩
    · exact List.mem_append_left _ (ih (he ▸ h))
    · exact List.mem_append_left _ (ih (he ▸ h))
    · rw [he] at h
      rcases List.mem_append.1 h with h | h
      · exact List.mem_append_left _ (ih h)
      · exact List.mem_append_right _ (by simpa using h)

theorem Sound.of_push {c : Insertion} (h : (l.push c).Sound) : l.Sound := by
  intro m hm n hn
  exact h m (by simp [push] at hm ⊢; exact .inl hm) n (by simp [push] at hn ⊢; exact .inl hn)

/-- The tip is not a parent of any node that is there. -/
theorem tip_notMem_parents {n : DagNode} (hn : n ∈ l.nodes) {t : NodeHash} (ht : l.tip = some t) :
    t ∉ n.parentHashes := by
  have hr := l.recorded
  intro hmem
  obtain ⟨xs, last, hxs⟩ : ∃ xs last, l.nodes = xs ++ [last] :=
    ⟨_, _, (List.dropLast_append_getLast (List.ne_nil_of_mem hn)).symm⟩
  have htip : last.hash = t := by
    rw [tip_eq, hxs] at ht
    simpa using ht
  subst htip
  obtain ⟨as, bs, has⟩ := List.append_of_mem hn
  have hearlier := hr.grounded as n bs has _ hmem
  have hnd := hr.nodup
  rw [hxs, List.map_append, List.map_singleton, List.nodup_append] at hnd
  rcases List.eq_nil_or_concat bs with rfl | ⟨cs, b, rfl⟩
  · obtain ⟨rfl, -⟩ := List.append_inj' (has.symm.trans hxs) rfl
    exact hnd.2.2 _ hearlier _ (List.mem_singleton_self _) rfl
  · rw [List.concat_eq_append, ← List.cons_append, ← List.append_assoc, hxs] at has
    obtain ⟨rfl, -⟩ := List.append_inj' has rfl
    rw [List.map_append] at hnd
    exact hnd.2.2 _ (List.mem_append_left _ hearlier) _ (List.mem_singleton_self _) rfl

/-- A node with the parents of a call whose first parent is the tip is not there. -/
theorem parents_ne {n : DagNode} (hn : n ∈ l.nodes) (ps : List NodeHash) :
    n.parentHashes ≠ l.tip.toList ++ ps := by
  intro heq
  cases ht : l.tip with
  | none =>
    rw [tip_eq, List.getLast?_eq_none_iff, List.map_eq_nil_iff] at ht
    rw [ht] at hn
    cases hn
  | some t =>
    refine tip_notMem_parents hn ht ?_
    rw [heq, ht]
    exact List.mem_append_left _ (List.mem_singleton_self _)

/-- A call whose first parent is the tip fails or adds its node. -/
theorem push_tip_cases {c : Insertion} {ps : List NodeHash}
    (hp : c.parentHashes = l.tip.toList ++ ps) :
    (∃ e, Refused blake3 l.nodes c e ∧ l.answer c = .error e ∧ (l.push c).nodes = l.nodes) ∨
    (l.answer c = .ok (c.node blake3).hash ∧ (l.push c).nodes = l.nodes ++ [c.node blake3]) := by
  rcases l.push_cases c with h | ⟨n, hn, -, h, -⟩ | h
  · exact .inl h
  · exact absurd (h.trans hp) (parents_ne hn ps)
  · exact .inr h

/-- In a sound ledger, a call whose first parent is the tip adds its node. -/
theorem push_tip {c : Insertion} {ps : List NodeHash} (hs : (l.push c).Sound)
    (ht : c.nodeType ≠ "") (hp : c.parentHashes = l.tip.toList ++ ps)
    (hps : ∀ p ∈ ps, p ∈ l.nodes.map DagNode.hash) :
    l.answer c = .ok (c.node blake3).hash ∧ (l.push c).nodes = l.nodes ++ [c.node blake3] := by
  have hr := l.recorded
  have hparents : ∀ p ∈ c.parentHashes, p ∈ l.nodes.map DagNode.hash := by
    intro p hpm
    rw [hp, tip_eq, List.mem_append, Option.mem_toList] at hpm
    rcases hpm with hpm | hpm
    · exact List.mem_of_getLast? hpm
    · exact hps p hpm
  -- so a node that is there and has the new one's hash has collided with it
  have hcoll : ∀ n ∈ l.nodes, n.hash ≠ (c.node blake3).hash := by
    intro n hn heq
    have hc : c.node blake3 ∈ (l.push c).calls.map (Insertion.node blake3) := by simp [push]
    have hm : n ∈ (l.push c).calls.map (Insertion.node blake3) := by
      have := l.mem_calls hn
      simp only [push, List.map_append, List.mem_append]
      exact .inl this
    rw [hr.hashed n hn] at heq
    exact parents_ne hn ps ((hs n hm _ hc heq).1.trans hp)
  rcases push_tip_cases hp with ⟨e, href, -, -⟩ | h
  · cases href with
    | emptyNodeType h => exact absurd h ht
    | parentNotFound h1 h2 => exact absurd (hparents _ h1) h2
    | hashCollision hn hh _ => exact absurd hh (hcoll _ hn)
  · exact h

end Ledger

/-! ### Every DAG is some ledger's -/

/-- Every history is that of the calls for its nodes. -/
theorem Recorded.exists_calls {ns : List DagNode} (h : Recorded blake3 ns) :
    ∃ calls, insertAll blake3 calls = .ofNodes ns := by
  induction ns using List.reverseRecOn with
  | nil => exact ⟨[], rfl⟩
  | append_singleton ns n ih =>
    obtain ⟨calls, hc⟩ := ih h.of_append
    have hn : n =
        Insertion.node blake3 ⟨n.parentHashes, n.nodeType, n.createdAtCycle, n.content⟩ := by
      have hash := h.hashed n (by simp)
      cases n
      simp only [Insertion.node, DagNode.mk.injEq, and_self, and_true]
      exact hash
    refine ⟨calls ++ [⟨n.parentHashes, n.nodeType, n.createdAtCycle, n.content⟩], ?_⟩
    rw [insertAll, List.foldl_append, List.foldl_cons, List.foldl_nil]
    show (insertNode blake3 (insertAll blake3 calls) _).2 = _
    rw [hc]
    rw [hn] at h
    obtain ⟨hr, ht, hp, hf⟩ := recorded_append_node.1 h
    rcases insertNode_cases hr ⟨n.parentHashes, n.nodeType, n.createdAtCycle, n.content⟩ with
      ⟨e, href, -⟩ | ⟨m, hm, hk, -⟩ | ⟨-, he⟩
    · cases href with
      | emptyNodeType h => exact absurd h ht
      | parentNotFound h1 h2 => exact absurd (hp _ h1) h2
      | hashCollision hn hh _ => exact absurd (List.mem_map.2 ⟨_, hn, hh⟩) hf
    · exact absurd (List.mem_map.2 ⟨m, hm, hk⟩) hf
    · rw [he, ← hn]

/-- A DAG that satisfies the invariant, with types that are not empty, is a history, stored. -/
theorem Dag.Inv.exists_ledger {d : Dag} (h : d.Inv blake3)
    (ht : ∀ k n, d.get k = some n → n.nodeType ≠ "") : ∃ l : Ledger blake3, l.dag = d := by
  have hget : ∀ k ∈ d.insertionOrder, ∃ n, d.get k = some n := by
    intro k hk
    rw [← Option.isSome_iff_exists, Dag.get, Finmap.lookup_isSome, ← h.keys]
    exact hk
  have horder : d.iterInInsertionOrder.map DagNode.hash = d.insertionOrder := by
    rw [Dag.iterInInsertionOrder, List.map_filterMap]
    refine (List.filterMap_congr fun k hk => ?_).trans List.filterMap_some
    obtain ⟨n, hn⟩ := hget k hk
    rw [hn, Option.map_some, (h.hashed k n hn).1]
  have hmem : ∀ n ∈ d.iterInInsertionOrder, d.get n.hash = some n := by
    intro n hn
    obtain ⟨k, -, hk⟩ := List.mem_filterMap.1 hn
    rw [(h.hashed k n hk).1, hk]
  have hr : Recorded blake3 d.iterInInsertionOrder := by
    refine ⟨horder ▸ h.nodup, fun n hn => (h.hashed _ n (hmem n hn)).2, ?_, fun n hn =>
      ht _ n (hmem n hn)⟩
    intro xs n ys hns ph hph
    refine h.earlier (xs.map DagNode.hash) n.hash (ys.map DagNode.hash) ?_ n
      (hmem n (by simp [hns])) ph hph
    rw [← horder, hns, List.map_append, List.map_cons]
  obtain ⟨calls, hc⟩ := hr.exists_calls
  refine ⟨⟨calls, d, ?_⟩, rfl⟩
  rw [hc]
  have hnodes : (Dag.ofNodes d.iterInInsertionOrder).nodes = d.nodes := by
    refine Finmap.ext_lookup fun k => ?_
    show (Dag.ofNodes d.iterInInsertionOrder).get k = d.get k
    cases hk : d.get k with
    | none =>
      rw [Dag.get_ofNodes hr.nodup, entryOf_eq_none, horder, h.keys, ← Finmap.lookup_isSome]
      rw [Dag.get] at hk
      simp [hk]
    | some n =>
      refine hr.get_eq_some.2 ⟨List.mem_filterMap.2 ⟨k, ?_, hk⟩, (h.hashed k n hk).1⟩
      rw [h.keys, ← Finmap.lookup_isSome]
      rw [Dag.get] at hk
      simp [hk]
  have htip := h.tip
  obtain ⟨nodes, order, tip⟩ := d
  simp only [Dag.ofNodes] at hnodes horder htip ⊢
  rw [hnodes, horder, htip]
end Myco.Schema
