import Myco.Prune.Scan
import Myco.Substrate.Laying

/-!
# A log of which every node is past

If every node of a log has the tip of its time for its first parent, then every node is the tip or
an ancestor of the tip (`present_of_linked`). Of such a log no rule for orphans selects anything,
neither the one for nodes that are no node's parent nor the one for what the live roots do not
reach, and no part has died in silence.
-/

namespace Myco.Prune

open Myco.Lib Myco.Canonical Myco.Schema Myco.Substrate

variable {blake3 : Bytes → NodeHash} {l : Ledger blake3} {ns ms : List DagNode} {n : DagNode}

/-! ### Parents in a log -/

/-- A node of the log has hash `a` and `b` for a parent. -/
def ParentIn (ns : List DagNode) (a b : NodeHash) : Prop :=
  ∃ n ∈ ns, n.hash = a ∧ b ∈ n.parentHashes

theorem ParentIn.mono {a b : NodeHash} (h : ParentIn ns a b) (hsub : ns ⊆ ms) :
    ParentIn ms a b := by
  obtain ⟨n, hn, ha, hb⟩ := h
  exact ⟨n, hsub hn, ha, hb⟩

/-- The last node, or an ancestor of it. -/
def PastIn (ns : List DagNode) (h : NodeHash) : Prop :=
  ∃ t, (ns.map DagNode.hash).getLast? = some t ∧ Relation.ReflTransGen (ParentIn ns) t h

/-- What is past stays so under a node that is laid on the last one. -/
theorem PastIn.concat {h : NodeHash} (hp : PastIn ns h) (hn : Linked ns n) :
    PastIn (ns ++ [n]) h := by
  obtain ⟨t, ht, hreach⟩ := hp
  obtain ⟨ps, hps⟩ := hn
  have hparent : ParentIn (ns ++ [n]) n.hash t := by
    refine ⟨n, by simp, rfl, ?_⟩
    rw [hps, tipOf, ht]
    simp
  have hrest : Relation.ReflTransGen (ParentIn (ns ++ [n])) t h :=
    Relation.ReflTransGen.mono (fun a b hab => hab.mono (List.subset_append_left _ _)) _ _ hreach
  exact ⟨n.hash, by simp, .head hparent hrest⟩

/-- Every node of a log that has grown on its tip is past. -/
theorem pastIn_of_grows (h : Grows Linked [] ns) : ∀ n ∈ ns, PastIn ns n.hash := by
  induction h with
  | refl => simp
  | @snoc ns y _ hy ih =>
    intro n hn
    rcases List.mem_append.1 hn with hn | hn
    · exact (ih n hn).concat hy
    · rw [List.mem_singleton.1 hn]
      exact ⟨y.hash, by simp, .refl⟩

/-! ### What is past -/

/-- The tip, or an ancestor of the tip. -/
def Present (l : Ledger blake3) (n : DagNode) : Prop :=
  ∃ t, l.dag.tip = some t ∧ Reaches l.dag t n.hash

theorem present_of_linked (h : Grows Linked [] l.nodes) : ∀ n ∈ l.nodes, Present l n := by
  intro n hn
  obtain ⟨t, ht, hreach⟩ := pastIn_of_grows h n hn
  refine ⟨t, l.tip_eq.trans ht, ?_⟩
  exact Relation.ReflTransGen.mono (fun a b hab => edge_iff.2 hab) _ _ hreach

/-- An ancestor of the tip that is not the tip is some node's parent. -/
theorem Present.referenced (h : Present l n) (hne : some n.hash ≠ l.dag.tip) :
    n.hash ∈ referenced l.dag := by
  obtain ⟨t, ht, hreach⟩ := h
  rcases Relation.ReflTransGen.cases_tail hreach with heq | ⟨a, -, hedge⟩
  · exact absurd (heq ▸ ht.symm) hne
  · obtain ⟨m, hm, -, hp⟩ := edge_iff.1 hedge
    exact List.mem_flatMap.2 ⟨m, hm, hp⟩

section

variable {ctx : PruneScanCtx} {t : UInt64}

theorem detectOrphan_eq_nil (h : ∀ n ∈ l.nodes, Present l n) (hctx : ctx.tip = l.dag.tip) :
    detectOrphanPastGrace l.dag ctx t = [] := by
  refine List.eq_nil_iff_forall_not_mem.2 fun c hc => ?_
  obtain ⟨n, hn, -, ⟨-, -, -, htip, hout⟩, -⟩ := mem_detectOrphan hc
  exact hout ((h n hn).referenced (hctx ▸ htip))

theorem detectUnreachable_eq_nil (h : ∀ n ∈ l.nodes, Present l n) :
    detectUnreachableFromLiveRoots l.dag ctx t = [] := by
  refine List.eq_nil_iff_forall_not_mem.2 fun c hc => ?_
  obtain ⟨n, hn, -, -, -, -, ⟨-, hdetached⟩, -⟩ := mem_detectUnreachable hc
  obtain ⟨tip, htip, hreach⟩ := h n hn
  refine hdetached tip (List.mem_append_left _ ?_) hreach
  rw [htip]
  exact List.mem_singleton_self tip

theorem checkSilentInternalMortality_passed {env : Env} {s : ServerState env}
    (h : ∀ n ∈ s.nodes, Present s.ledger n) : (checkSilentInternalMortality s).passed = true := by
  have hnone : silentDeaths s = [] := by
    refine List.eq_nil_iff_forall_not_mem.2 fun n hn => ?_
    obtain ⟨hmem, htip, hout⟩ := orphaned_of_silentDeath hn
    exact hout ((h n hmem).referenced htip)
  show (silentDeaths s).isEmpty = true
  rw [hnone]
  rfl

end

end Myco.Prune
