import Myco.Prune.Rules

/-!
# Integrity checks

Three of the checks of `run_integrity_checks` in `substrate/src/integrity.rs`, each with the
evidence and the inputs that it hands on: `cycle_counter_monotonic`, `canonical_bytes_render_drift`
and `silent_internal_mortality`.
-/

namespace Myco.Substrate

open Myco.Lib Myco.Canonical Myco.Schema Myco.Prune

variable {env : Env}

structure IntegrityCheckResult where
  checkId : String
  passed : Bool
  evidence : String
  witnessInputs : Bytes
  tier : String

/-! ### The cycle counter -/

/-- The latest cycle that some node says it was made in. -/
def maxDagCycle (s : ServerState env) : UInt64 := (s.nodes.map DagNode.createdAtCycle).max?.getD 0

def checkCycleCounterMonotonic (s : ServerState env) : IntegrityCheckResult :=
  let monotonic := decide (maxDagCycle s ≤ s.cycleCounter)
  { checkId := "cycle_counter_monotonic"
    passed := monotonic
    evidence := if monotonic then
        s!"manifest.cycle_counter={s.cycleCounter} >= max(DAG.at_cycle)={maxDagCycle s}"
      else s!"manifest.cycle_counter={s.cycleCounter} < max(DAG.at_cycle)={
        maxDagCycle s} (manifest may have rolled back)"
    witnessInputs := cbEncode [("manifest_cycle_counter", .uint s.cycleCounter),
      ("max_dag_at_cycle", .uint (maxDagCycle s))]
    tier := "tier_1" }

theorem max_le_iff_uInt64 {a b c : UInt64} : max a b ≤ c ↔ a ≤ c ∧ b ≤ c := by
  show (if a ≤ b then b else a) ≤ c ↔ _
  simp only [UInt64.le_iff_toNat_le]
  split <;> omega

theorem foldl_max_le_iff {xs : List UInt64} {a c : UInt64} :
    xs.foldl max a ≤ c ↔ a ≤ c ∧ ∀ x ∈ xs, x ≤ c := by
  induction xs generalizing a with
  | nil => simp
  | cons x xs ih => rw [List.foldl_cons, ih, max_le_iff_uInt64, List.forall_mem_cons, and_assoc]

theorem checkCycleCounterMonotonic_passed {s : ServerState env} :
    (checkCycleCounterMonotonic s).passed = true ↔
      ∀ n ∈ s.nodes, n.createdAtCycle ≤ s.cycleCounter := by
  show decide _ = true ↔ _
  rw [decide_eq_true_iff, maxDagCycle]
  cases s.nodes with
  | nil => simp
  | cons n ns =>
    rw [List.map_cons, List.max?_cons', Option.getD_some, foldl_max_le_iff, List.forall_mem_map,
      List.forall_mem_cons]

/-! ### The rendering of the content -/

/-- Whether the substrate has chosen the encoding of a node's content. -/
def isSubstrateGenerated (nodeType : String) : Prop := ¬ startsWith "mutation:" nodeType

instance (nodeType : String) : Decidable (isSubstrateGenerated nodeType) :=
  inferInstanceAs (Decidable (¬ _))

/-- How the content of a node differs from its own rendering, if it does; `none` when reading it
stops the process. -/
def drift (env : Env) (node : DagNode) : Option (Option String) :=
  let name := s!"node {hexEncode node.hash.bytes}"
  match decode node.content with
  | .ok value =>
    match encode value with
    | .ok reencoded =>
      if reencoded = node.content then some none
      else some (some (s!"{name} (type {env.debugText node.nodeType}) round-trips to different " ++
        s!"bytes (original {node.content.length} bytes, re-encoded {reencoded.length} bytes)"))
    | .error e => some (some s!"{name} re-encode failed: {env.canonicalErrorText e}")
  | .error (.err e) => some (some s!"{name} decode failed: {env.canonicalErrorText e}")
  | .error _ => none

def substrateGenerated (s : ServerState env) : List DagNode :=
  s.nodes.filter fun n => isSubstrateGenerated n.nodeType

def tipBytes (s : ServerState env) : Bytes := (s.ledger.tip.map Hash32.bytes).getD []

def checkCanonicalBytesRenderDrift (s : ServerState env) : Option IntegrityCheckResult := do
  let drifts := ((← (substrateGenerated s).mapM (drift env)).filterMap id)
  let count := (substrateGenerated s).length
  return {
    checkId := "canonical_bytes_render_drift"
    passed := drifts.isEmpty
    evidence := drifts.head?.getD s!"ok (all {
      count} substrate-generated DAG nodes round-trip cleanly; mutation:* content is operator-opaque and skipped)"
    witnessInputs := cbEncode [("substrate_generated_count", .uint (UInt64.ofNat count)),
      ("drift_count", .uint (UInt64.ofNat drifts.length)), ("dag_tip_hash", .bytes (tipBytes s))]
    tier := "tier_1" }

/-- The content reads back as a value that is written as the content. -/
def Rendered (n : DagNode) : Prop :=
  isSubstrateGenerated n.nodeType → ∃ v, decode n.content = .ok v ∧ encode v = .ok n.content

theorem drift_eq_none {n : DagNode} : drift env n = some none ↔
    ∃ v, decode n.content = .ok v ∧ encode v = .ok n.content := by
  unfold drift
  cases hd : decode n.content with
  | error e => cases e <;> simp
  | ok v =>
    cases he : encode v with
    | error e => simp [he]
    | ok b =>
      by_cases hb : b = n.content
      · simp [he, hb]
      · simp [he, hb]

/-! ### Parts that died in silence -/

/-- The parts past grace that nothing refers to and no tombstone names. -/
def silentDeaths (s : ServerState env) : List DagNode :=
  let dag := s.ledger.dag
  if s.cycleCounter > orphanGraceCycles then
    dag.iterInInsertionOrder.filter fun node =>
      node.createdAtCycle ≤ saturatingSub s.cycleCounter orphanGraceCycles ∧
        ¬ startsWith internalMortalityEventPrefix node.nodeType ∧
        ¬ isP10InvariantProtected node.nodeType ∧ some node.hash ≠ dag.tip ∧
        node.hash ∉ referenced dag ∧ node.hash ∉ collectAlreadyTombstoned dag
  else []

def checkSilentInternalMortality (s : ServerState env) : IntegrityCheckResult :=
  let violations := silentDeaths s
  { checkId := "silent_internal_mortality"
    passed := violations.isEmpty
    evidence := match violations with
      | [] => s!"ok (cycle {s.cycleCounter}; all graph-orphans past {
          orphanGraceCycles}-cycle grace have internal_mortality tombstones — no silent prune detected; {
          (collectAlreadyTombstoned s.ledger.dag).dedup.length} tombstones in DAG)"
      | example_ :: _ => s!"{
          violations.length} silent prune(s) detected — orphan parts past grace with NO internal_mortality_event tombstone. Example: node_type={
          env.debugText example_.nodeType} hash={hexEncode example_.hash.bytes} created_at_cycle={
          example_.createdAtCycle}"
    witnessInputs := cbEncode ([("violation_count", .uint (UInt64.ofNat violations.length)),
      ("current_cycle", .uint s.cycleCounter), ("grace_cycles", .uint orphanGraceCycles)] ++
      entryIf "first_violation_hash" (fun n : DagNode => hashValue n.hash) violations.head? ++
      entryIf "first_violation_node_type" (fun n : DagNode => .string n.nodeType) violations.head?)
    tier := "tier_1" }

/-- What the check complains of is an orphan. -/
theorem orphaned_of_silentDeath {s : ServerState env} {n : DagNode} (h : n ∈ silentDeaths s) :
    n ∈ s.nodes ∧ some n.hash ≠ s.ledger.tip ∧ n.hash ∉ referenced s.ledger.dag := by
  unfold silentDeaths at h
  split at h
  · obtain ⟨hmem, hn⟩ := List.mem_filter.1 h
    obtain ⟨-, -, -, htip, href, -⟩ := of_decide_eq_true hn
    exact ⟨hmem, htip, href⟩
  · cases h

end Myco.Substrate
