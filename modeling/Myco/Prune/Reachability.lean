import Myco.Prune.Scan

/-!
# The backward walk of the unreachable rule

`detect_unreachable_from_live_roots` of `substrate/src/prune.rs` walks back along parents with a
stack and a set of the hashes it has seen. The walk needs nothing of the relation it walks along
but that it is finite: along any, cycles and hashes without an entry included, it comes to the end
of its stack, and has then seen what its roots reach (`walk_exact`). At a DAG the roots are the tip
and the parents of the nodes of the last cycles (`mem_liveRoots`), and the nodes that the rule goes
on to select are the old ones that the walk has not seen and that some node names as its parent
(`selected_iff`), which the orphan rule's never are (`rules_disjoint`).
-/

namespace Myco.Prune

open Myco.Lib Myco.Canonical Myco.Schema Myco.Substrate

variable {blake3 : Bytes → NodeHash} {dag : Dag} {ctx : PruneScanCtx} {t : UInt64}

/-- The walk from `roots` after `turns` turns of its loop. -/
def walk (parents : NodeHash → List NodeHash) (turns : Nat) (roots : List NodeHash) :
    Search NodeHash :=
  search parents turns (Search.visitAll roots ⟨[], []⟩)

/-- Along any finite relation the walk ends, and has seen what its roots reach. -/
theorem walk_exact (parents : NodeHash → List NodeHash) (hashes roots : List NodeHash)
    (hfinite : ∀ h, parents h ⊆ hashes) : ∃ last, ∀ turns, last ≤ turns →
      (walk parents turns roots).stack = [] ∧
      ∀ h, h ∈ (walk parents turns roots).visited ↔
        ∃ r ∈ roots, Relation.ReflTransGen (Edge parents) r h := by
  refine ⟨(roots ++ hashes).length, fun turns hturns => ?_⟩
  have hroots : roots ⊆ roots ++ hashes := List.subset_append_left _ _
  have hclosed : ∀ h ∈ roots ++ hashes, parents h ⊆ roots ++ hashes :=
    fun h _ => List.Subset.trans (hfinite h) (List.subset_append_right _ _)
  exact ⟨(search_ends hroots hclosed hturns).2, fun h => mem_reachable_iff hroots hclosed hturns⟩

/-- The parents that are looked up are parents of nodes that are there. -/
theorem parentsOf_subset {l : Ledger blake3} (h : NodeHash) :
    parentsOf l.dag h ⊆ referenced l.dag := by
  intro p hp
  unfold parentsOf at hp
  cases hx : l.dag.get h with
  | none =>
    rw [hx] at hp
    cases hp
  | some n =>
    rw [hx] at hp
    exact List.mem_flatMap.2 ⟨n, (l.get_eq_some.1 hx).1, hp⟩

/-- The tip, or a parent of a node of the last `orphanGraceCycles` cycles. -/
def LiveRoot (dag : Dag) (t : UInt64) (r : NodeHash) : Prop :=
  dag.tip = some r ∨ ∃ n ∈ dag.iterInInsertionOrder,
    t.toNat < n.createdAtCycle.toNat + orphanGraceCycles.toNat ∧ r ∈ n.parentHashes

theorem mem_liveRoots {r : NodeHash} (ht : orphanGraceCycles < t) :
    r ∈ liveRoots dag (saturatingSub t orphanGraceCycles) ↔ LiveRoot dag t r := by
  have hrecent : ∀ n : DagNode, saturatingSub t orphanGraceCycles < n.createdAtCycle ↔
      t.toNat < n.createdAtCycle.toNat + orphanGraceCycles.toNat := by
    intro n
    rw [UInt64.lt_iff_toNat_lt] at ht ⊢
    rw [saturatingSub_toNat]
    omega
  simp only [liveRoots, LiveRoot, List.mem_append, Option.mem_toList, List.mem_flatMap,
    List.mem_filter, decide_eq_true_eq, gt_iff_lt, hrecent, and_assoc]

/-- A part of the unreachable rule is some node's parent, a part of the orphan rule is none's. -/
theorem rules_disjoint {c o : PruneCandidate}
    (hc : c ∈ detectUnreachableFromLiveRoots dag ctx t) (ho : o ∈ detectOrphanPastGrace dag ctx t) :
    c.partHash ≠ o.partHash := by
  obtain ⟨m, -, hm, ⟨-, -, -, -, hout⟩, -⟩ := mem_detectOrphan ho
  rw [hm.1]
  unfold detectUnreachableFromLiveRoots at hc
  split at hc
  · cases hc
  · obtain ⟨n, -, hn⟩ := List.mem_filterMap.1 hc
    split at hn
    · rename_i hcond
      cases hn
      exact fun he => hout (he ▸ hcond.2.1)
    · cases hn

/-- The rule selects the parents that it has not marked, of those that are past their grace and may
be pruned. -/
theorem selected_iff {l : Ledger blake3} {n : DagNode} (ht : orphanGraceCycles < t)
    (hn : n ∈ l.nodes) :
    n.hash ∈ partsOf (detectUnreachableFromLiveRoots l.dag ctx t) ↔
      n.createdAtCycle.toNat + orphanGraceCycles.toNat ≤ t.toNat ∧ n.hash ∈ referenced l.dag ∧
      n.hash ∉ reachableFrom l.dag (liveRoots l.dag (saturatingSub t orphanGraceCycles)) ∧
      isPruneEligible n.nodeType n.hash ctx := by
  have hpast : n.createdAtCycle ≤ saturatingSub t orphanGraceCycles ↔
      n.createdAtCycle.toNat + orphanGraceCycles.toNat ≤ t.toNat := by
    rw [UInt64.lt_iff_toNat_lt] at ht
    rw [UInt64.le_iff_toNat_le, saturatingSub_toNat]
    omega
  unfold partsOf detectUnreachableFromLiveRoots
  rw [if_neg (UInt64.not_le.2 ht), List.mem_map]
  dsimp only
  constructor
  · rintro ⟨c, hc, hcn⟩
    obtain ⟨m, hm, hsel⟩ := List.mem_filterMap.1 hc
    split at hsel
    · rename_i hcond
      cases hsel
      cases eq_of_key_eq l.recorded.nodup hm hn hcn
      exact ⟨hpast.1 hcond.1, hcond.2⟩
    · cases hsel
  · rintro ⟨hold, hcond⟩
    exact ⟨_, List.mem_filterMap.2 ⟨n, hn, if_pos ⟨hpast.2 hold, hcond⟩⟩, rfl⟩

/-- The loop ends along any finite relation, cyclic ones included, with what its roots reach; at a
DAG the rule so marks what the live roots reach, selects of the old parents just those that it has
not marked, and nothing that the orphan rule does. -/
theorem unreachable_rule_exact (blake3 : Bytes → NodeHash) :
    (∀ (parents : NodeHash → List NodeHash) (hashes roots : List NodeHash),
      (∀ h, parents h ⊆ hashes) → ∃ last, ∀ turns, last ≤ turns →
        (walk parents turns roots).stack = [] ∧
        ∀ h, h ∈ (walk parents turns roots).visited ↔
          ∃ r ∈ roots, Relation.ReflTransGen (Edge parents) r h) ∧
    ∀ (l : Ledger blake3) (ctx : PruneScanCtx) (t : UInt64), orphanGraceCycles < t →
      (∃ last, ∀ turns, last ≤ turns → (walk (parentsOf l.dag) turns
        (liveRoots l.dag (saturatingSub t orphanGraceCycles))).stack = []) ∧
      (∀ h, h ∈ reachableFrom l.dag (liveRoots l.dag (saturatingSub t orphanGraceCycles)) ↔
        ∃ r, LiveRoot l.dag t r ∧ Reaches l.dag r h) ∧
      (∀ n ∈ l.nodes, n.hash ∈ partsOf (detectUnreachableFromLiveRoots l.dag ctx t) ↔
        n.createdAtCycle.toNat + orphanGraceCycles.toNat ≤ t.toNat ∧ n.hash ∈ referenced l.dag ∧
        n.hash ∉ reachableFrom l.dag (liveRoots l.dag (saturatingSub t orphanGraceCycles)) ∧
        isPruneEligible n.nodeType n.hash ctx) ∧
      ∀ c ∈ detectUnreachableFromLiveRoots l.dag ctx t, ∀ o ∈ detectOrphanPastGrace l.dag ctx t,
        c.partHash ≠ o.partHash := by
  refine ⟨walk_exact, fun l ctx t ht => ⟨?_, fun h => ?_, fun n hn => selected_iff ht hn,
    fun c hc o ho => rules_disjoint hc ho⟩⟩
  · obtain ⟨last, hlast⟩ := walk_exact (parentsOf l.dag) (referenced l.dag)
      (liveRoots l.dag (saturatingSub t orphanGraceCycles)) parentsOf_subset
    exact ⟨last, fun turns hturns => (hlast turns hturns).1⟩
  · rw [mem_reachableFrom]
    simp only [mem_liveRoots ht]

def oldRoot : Insertion := ⟨[], "raw_material:root", 0, []⟩

/-- An old root, an old child of it, and a tip that names neither. -/
def twigs : Ledger foldHash :=
  ((Ledger.new.push oldRoot).push ⟨[(oldRoot.node foldHash).hash], "raw_material:twig", 0, [1]⟩).push
    ⟨[], "raw_material:tip", 1500, [2]⟩

/-- Two hashes that are each other's parents, and a DAG in which the old root is selected. -/
theorem unreachable_rule_exact_twigs :
    (∃ last, ∀ turns, last ≤ turns →
      (walk (fun h => if h = .replicate 0 then [.replicate 1] else [.replicate 0]) turns
        [.replicate 0, .replicate 0]).stack = []) ∧
    (oldRoot.node foldHash).hash ∈
      partsOf (detectUnreachableFromLiveRoots twigs.dag (.forDag twigs.dag) 2000) ∧
    ∀ r, LiveRoot twigs.dag 2000 r → ¬ Reaches twigs.dag r (oldRoot.node foldHash).hash := by
  have hexact := unreachable_rule_exact foldHash
  constructor
  · obtain ⟨last, h⟩ := hexact.1 (fun h => if h = .replicate 0 then [.replicate 1] else
      [.replicate 0]) [.replicate 0, .replicate 1] [.replicate 0, .replicate 0] (by
        intro h
        split <;> simp)
    exact ⟨last, fun turns hturns => (h turns hturns).1⟩
  · obtain ⟨-, hmarked, hselected, -⟩ := hexact.2 twigs (.forDag twigs.dag) 2000 (by decide)
    have hroot : oldRoot.node foldHash ∈ twigs.nodes := by decide +kernel
    have hsel : (oldRoot.node foldHash).hash ∈
        partsOf (detectUnreachableFromLiveRoots twigs.dag (.forDag twigs.dag) 2000) := by
      decide +kernel
    refine ⟨hsel, fun r hr hreach => ?_⟩
    obtain ⟨-, -, hunmarked, -⟩ := (hselected _ hroot).1 hsel
    exact hunmarked ((hmarked _).2 ⟨r, hr, hreach⟩)

end Myco.Prune
