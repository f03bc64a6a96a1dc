import Mathlib.Data.List.Sort
import Myco.Lib.Index
import Myco.Lib.Search
import Myco.Substrate.Events

/-!
# The rules of the prune scan

The registry of `substrate/src/prune.rs` and its six rules. A rule reads the DAG and what a scan
computes once, and answers with the parts it declares dead. `already_tombstoned` is computed
before the scan, and the first rule does not consult it.

The sets and maps of the code are lists and functions here, its backward walk a `reachable`.
-/

namespace Myco.Prune

open Myco.Lib Myco.Canonical Myco.Schema Myco.Substrate

structure PruneCandidate where
  partHash : NodeHash
  partNodeType : String
  reason : String
  replacedByHash : Option NodeHash
deriving DecidableEq

structure PruneScanCtx where
  alreadyTombstoned : List NodeHash
  tip : Option NodeHash

structure PruneRule where
  ruleId : String
  category : String
  detect : Dag → PruneScanCtx → UInt64 → List PruneCandidate

/-! ### What every rule spares -/

def protectedPrefixes : List String :=
  ["genesis_event:", "l0_revision_attested:", "tip_cosigned:", "compression_event:", "owner_key_",
    "destruction_attestation", "anchor_surface_final_seal", "self_euthanasia_executed:",
    "bet_retired", "birth_attestation", "cultivator_heartbeat_recorded",
    "cultivator_heartbeat_stale", "cultivator_heartbeat_resumed", "successor_chain_updated",
    "succession_completed", "cultivation_orphaned", "cultivation_recovered",
    internalMortalityEventPrefix]

def isP10InvariantProtected (nodeType : String) : Prop :=
  ∃ p ∈ protectedPrefixes, startsWith p nodeType

instance (nodeType : String) : Decidable (isP10InvariantProtected nodeType) :=
  inferInstanceAs (Decidable (∃ p ∈ protectedPrefixes, startsWith p nodeType))

/-- The part that a tombstone says is dead. -/
def killedPartHash (node : DagNode) : Option NodeHash :=
  if startsWith internalMortalityEventPrefix node.nodeType then
    (decodeMap? node.content).bind (bytes32? · "killed_part_hash")
  else none

def collectAlreadyTombstoned (dag : Dag) : List NodeHash :=
  dag.iterInInsertionOrder.filterMap killedPartHash

def PruneScanCtx.forDag (dag : Dag) : PruneScanCtx := ⟨collectAlreadyTombstoned dag, dag.tip⟩

def isPruneEligible (nodeType : String) (hash : NodeHash) (ctx : PruneScanCtx) : Prop :=
  ¬ isP10InvariantProtected nodeType ∧ some hash ≠ ctx.tip ∧ hash ∉ ctx.alreadyTombstoned

instance (nodeType : String) (hash : NodeHash) (ctx : PruneScanCtx) :
    Decidable (isPruneEligible nodeType hash ctx) := inferInstanceAs (Decidable (_ ∧ _ ∧ _))

/-- Every hash that some node names as a parent. -/
def referenced (dag : Dag) : List NodeHash :=
  dag.iterInInsertionOrder.flatMap DagNode.parentHashes

/-! ### Orphans -/

def orphanGraceCycles : UInt64 := 1000

def detectOrphanPastGrace (dag : Dag) (ctx : PruneScanCtx) (currentCycle : UInt64) :
    List PruneCandidate :=
  if currentCycle ≤ orphanGraceCycles then []
  else dag.iterInInsertionOrder.filterMap fun node =>
    if node.createdAtCycle ≤ saturatingSub currentCycle orphanGraceCycles ∧
        ¬ isP10InvariantProtected node.nodeType ∧ some node.hash ≠ ctx.tip ∧
        node.hash ∉ referenced dag then
      some ⟨node.hash, node.nodeType,
        s!"orphan unreferenced for ≥{orphanGraceCycles} cycles " ++
          s!"(created_at={node.createdAtCycle}, now={currentCycle})",
        none⟩
    else none

/-! ### Stale axes -/

def staleAxisGraceCycles : UInt64 := 2000

def axisPerturbedPrefix : String := "axis_perturbed:"
def axisResetPrefix : String := "axis_reset_after_fruiting:"

/-- The axis that an event registers, perturbs or resets. -/
def touchedAxis (node : DagNode) : Option String :=
  (stripPrefix axisRegisteredPrefix node.nodeType).or
    ((stripPrefix axisPerturbedPrefix node.nodeType).or
      (stripPrefix axisResetPrefix node.nodeType))

def laterTouch (entry : Option UInt64) (node : DagNode) : UInt64 :=
  if node.createdAtCycle > entry.getD 0 then node.createdAtCycle else entry.getD 0

def lastTouch (dag : Dag) : String → Option UInt64 :=
  buildIndex touchedAxis laterTouch dag.iterInInsertionOrder

def detectStaleAxisPastWindow (dag : Dag) (ctx : PruneScanCtx) (currentCycle : UInt64) :
    List PruneCandidate :=
  if currentCycle ≤ staleAxisGraceCycles then []
  else dag.iterInInsertionOrder.filterMap fun node =>
    (stripPrefix axisRegisteredPrefix node.nodeType).bind fun name =>
      let touch := (lastTouch dag name).getD node.createdAtCycle
      if touch ≤ saturatingSub currentCycle staleAxisGraceCycles ∧
          isPruneEligible node.nodeType node.hash ctx then
        some ⟨node.hash, node.nodeType,
          s!"axis '{name}' unrefreshed for ≥{staleAxisGraceCycles} cycles " ++
            s!"(last_touch={touch}, now={currentCycle})",
          none⟩
      else none

/-! ### Falsified evolutions -/

def erroneousGraceCycles : UInt64 := 1000

/-- The later of two nodes that replace a part; of equally late ones the one seen last. -/
def laterReplacement (entry : Option (UInt64 × NodeHash)) (cycle : UInt64) (hash : NodeHash) :
    UInt64 × NodeHash :=
  if cycle ≥ (entry.getD (0, .replicate 0)).1 then (cycle, hash)
  else entry.getD (0, .replicate 0)

def latestFailure (dag : Dag) : String → Option (UInt64 × NodeHash) :=
  buildIndex (fun node => stripPrefix evolutionFailedPrefix node.nodeType)
    (fun entry node => laterReplacement entry node.createdAtCycle node.hash)
    dag.iterInInsertionOrder

def detectSupersededByFailedEvolution (dag : Dag) (ctx : PruneScanCtx) (currentCycle : UInt64) :
    List PruneCandidate :=
  if currentCycle ≤ erroneousGraceCycles then []
  else dag.iterInInsertionOrder.filterMap fun node =>
    (stripPrefix evolutionSucceededPrefix node.nodeType).bind fun op =>
      (latestFailure dag op).bind fun (failCycle, failHash) =>
        if node.createdAtCycle < failCycle ∧
            erroneousGraceCycles < saturatingSub currentCycle failCycle ∧
            isPruneEligible node.nodeType node.hash ctx then
          some ⟨node.hash, node.nodeType,
            s!"evolution_succeeded:{op} (cycle {node.createdAtCycle}) superseded by later " ++
              s!"evolution_failed:{op} (cycle {failCycle}); now={currentCycle}",
            some failHash⟩
        else none

/-! ### Superseded plates -/

def plateSupersededGraceCycles : UInt64 := 1000

def forgedUnderstandingPrefix : String := "forged_understanding:"

/-- The nodes that a plate says it supersedes. -/
def supersedes (node : DagNode) : List NodeHash :=
  if startsWith forgedUnderstandingPrefix node.nodeType then
    match (decodeMap? node.content).bind (OrdMap.get "supersedes") with
    | some (.array items) => hashesOf items
    | _ => []
  else []

/-- Each superseded node with the plate that supersedes it. -/
def supersessions (dag : Dag) : List (NodeHash × DagNode) :=
  dag.iterInInsertionOrder.flatMap fun node => (supersedes node).map (·, node)

def supersededBy (dag : Dag) : NodeHash → Option (UInt64 × NodeHash) :=
  buildIndex (fun e => some e.1)
    (fun entry e => laterReplacement entry e.2.createdAtCycle e.2.hash) (supersessions dag)

def detectForgedUnderstandingSuperseded (dag : Dag) (ctx : PruneScanCtx) (currentCycle : UInt64) :
    List PruneCandidate :=
  if currentCycle ≤ plateSupersededGraceCycles then []
  else dag.iterInInsertionOrder.filterMap fun node =>
    if startsWith forgedUnderstandingPrefix node.nodeType then
      (supersededBy dag node.hash).bind fun (supersedingCycle, supersedingHash) =>
        if node.createdAtCycle < supersedingCycle ∧
            plateSupersededGraceCycles < saturatingSub currentCycle supersedingCycle ∧
            isPruneEligible node.nodeType node.hash ctx then
          some ⟨node.hash, node.nodeType,
            s!"forged_understanding plate (cycle {node.createdAtCycle}) superseded by a later " ++
              s!"plate (cycle {supersedingCycle}); now={currentCycle}",
            some supersedingHash⟩
        else none
    else none

/-! ### Duplicates -/

def redundantGraceCycles : UInt64 := 1000

def sporocarpPrefix : String := "sporocarp:"

def redundantInScope (nodeType : String) : Prop :=
  startsWith rawMaterialPrefix nodeType ∨ startsWith sporocarpPrefix nodeType

instance (nodeType : String) : Decidable (redundantInScope nodeType) :=
  inferInstanceAs (Decidable (_ ∨ _))

structure DuplicateGroup where
  firstHash : NodeHash
  firstType : String
  firstCycle : UInt64
  firstIndex : Nat
  survivorHash : Option NodeHash

def duplicateKey (e : DagNode × Nat) : Option (String × Bytes) :=
  if redundantInScope e.1.nodeType then some (e.1.nodeType, e.1.content) else none

/-- The first survivor seen stays. -/
def joinGroup (entry : Option DuplicateGroup) (e : DagNode × Nat) : DuplicateGroup :=
  match entry with
  | none => ⟨e.1.hash, e.1.nodeType, e.1.createdAtCycle, e.2, none⟩
  | some g =>
    if g.survivorHash = none ∧ e.1.hash ≠ g.firstHash then
      { g with survivorHash := some e.1.hash }
    else g

def duplicateGroups (dag : Dag) : List DuplicateGroup :=
  indexValues duplicateKey joinGroup dag.iterInInsertionOrder.zipIdx

def detectDuplicateContentSubsumed (dag : Dag) (ctx : PruneScanCtx) (currentCycle : UInt64) :
    List PruneCandidate :=
  if currentCycle ≤ redundantGraceCycles then []
  else
    let emittable := (duplicateGroups dag).filter fun g =>
      g.survivorHash.isSome ∧
        g.firstCycle ≤ saturatingSub currentCycle redundantGraceCycles ∧
        isPruneEligible g.firstType g.firstHash ctx
    (emittable.insertionSort fun g h => g.firstIndex ≤ h.firstIndex).map fun g =>
      ⟨g.firstHash, g.firstType,
        s!"byte-identical duplicate of a later '{g.firstType}' node subsumes this " ++
          s!"earliest copy (first_cycle={g.firstCycle}, now={currentCycle})",
        g.survivorHash⟩

/-! ### Detached nodes -/

/-- `by_hash.get(&h)`: the parents of a node that is there. -/
def parentsOf (dag : Dag) (h : NodeHash) : List NodeHash :=
  ((dag.get h).map DagNode.parentHashes).getD []

/-- The tip, and the parents of every node of the last cycles. -/
def liveRoots (dag : Dag) (recentCutoff : UInt64) : List NodeHash :=
  dag.tip.toList ++ (dag.iterInInsertionOrder.filter fun node =>
    node.createdAtCycle > recentCutoff).flatMap DagNode.parentHashes

/-- What the backward walk marks. Every hash it can push is a root or a parent. -/
def reachableFrom (dag : Dag) (roots : List NodeHash) : List NodeHash :=
  reachable (parentsOf dag) (roots.length + (referenced dag).length) roots

def detectUnreachableFromLiveRoots (dag : Dag) (ctx : PruneScanCtx) (currentCycle : UInt64) :
    List PruneCandidate :=
  if currentCycle ≤ orphanGraceCycles then []
  else
    let recentCutoff := saturatingSub currentCycle orphanGraceCycles
    let marked := reachableFrom dag (liveRoots dag recentCutoff)
    dag.iterInInsertionOrder.filterMap fun node =>
      if node.createdAtCycle ≤ recentCutoff ∧ node.hash ∈ referenced dag ∧ node.hash ∉ marked ∧
          isPruneEligible node.nodeType node.hash ctx then
        some ⟨node.hash, node.nodeType,
          s!"transitively unreachable from live roots for ≥{orphanGraceCycles} cycles " ++
            s!"(created_at={node.createdAtCycle}, now={currentCycle})",
          none⟩
      else none

/-! ### The registry -/

def orphanRule : PruneRule :=
  ⟨"L0.seed.orphan_past_grace", "无用", detectOrphanPastGrace⟩

def staleAxisRule : PruneRule :=
  ⟨"L1.过时.axis_unrefreshed_past_window", "过时", detectStaleAxisPastWindow⟩

def failedEvolutionRule : PruneRule :=
  ⟨"L1.错误.superseded_by_failed_evolution", "错误", detectSupersededByFailedEvolution⟩

def duplicateRule : PruneRule :=
  ⟨"L1.冗余.duplicate_content_subsumed", "冗余", detectDuplicateContentSubsumed⟩

def unreachableRule : PruneRule :=
  ⟨"L1.无用.unreachable_from_live_roots", "无用", detectUnreachableFromLiveRoots⟩

def supersededPlateRule : PruneRule :=
  ⟨"L1.错误.forged_understanding_superseded", "错误", detectForgedUnderstandingSuperseded⟩

/-- `PruneRuleRegistry::seed()`, in the order in which a scan runs them. -/
def seedRules : List PruneRule :=
  [orphanRule, staleAxisRule, failedEvolutionRule, duplicateRule, unreachableRule,
    supersededPlateRule]

end Myco.Prune
