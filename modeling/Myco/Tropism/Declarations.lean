import Myco.Substrate.Absorption
import Myco.Tropism.Gradient

/-!
# Declarations

The contents of the mutations that the substrate looks into (`substrate/src/events/telos.rs`,
`backup_encryption.rs`, `compression.rs`), the events that follow them, and the types of mutation
that it refuses unread (`substrate/src/prune.rs`).

A weight of an objective is kept as the text that it was declared in.
-/

namespace Myco.Tropism

open Myco.Lib Myco.Canonical Myco.Schema Myco.Substrate

/-! ### What is refused unread -/

def forbiddenPreserveAllMutationTypes : List String :=
  ["preserve_all_axes", "preserve_all_parts", "disable_prune_scan", "disable_internal_mortality",
    "exempt_from_mortality", "never_prune", "never_prune_family", "preserve_everything"]

def isCultivatorPreserveAllAttempt (mutationType : String) : Bool :=
  mutationType ∈ forbiddenPreserveAllMutationTypes

def forbiddenCultivationOrphanedSuppressionTypes : List String :=
  ["suppress_cultivation_orphaned", "delay_cultivation_orphaned",
    "exempt_from_cultivation_orphaned", "disable_orphan_detection",
    "extend_legacy_window_indefinitely", "silence_cultivator_heartbeat_stale"]

def isCultivationOrphanedSuppressionAttempt (mutationType : String) : Bool :=
  mutationType ∈ forbiddenCultivationOrphanedSuppressionTypes

/-! ### Backups -/

def backupEncryptionStatusValidValues : List String :=
  ["encrypted_externally", "cultivator_declined_explicit"]

def backupEncryptionStatusDeclaredPrefix : String := "backup_encryption_status_declared:"

def backupEncryptionStatusDeclaredNodeType (status : String) : String :=
  backupEncryptionStatusDeclaredPrefix ++ status

def encodeBackupEncryptionStatusDeclared (status : String) (keyId : Option String)
    (declaredAtCycle : UInt64) : Bytes :=
  cbEncode [("status", .string status), ("key_id", keyId.elim .null .string),
    ("declared_at_cycle", .uint declaredAtCycle)]

def decodeBackupEncryptionStatus (content : Bytes) : Option String :=
  (decodeMap? content).bind (string? · "status")

/-- One turn of the loop of `derive_backup_encryption_status_from_dag`. -/
def laterBackupEncryptionStatus (latest : Option (UInt64 × String)) (node : DagNode) :
    Option (UInt64 × String) :=
  if startsWith backupEncryptionStatusDeclaredPrefix node.nodeType then
    match decodeBackupEncryptionStatus node.content with
    | some status =>
      if latest.all fun l => l.1 ≤ node.createdAtCycle then some (node.createdAtCycle, status)
      else latest
    | none => latest
  else latest

def deriveBackupEncryptionStatusFromDag (nodes : List DagNode) : Option String :=
  (nodes.foldl laterBackupEncryptionStatus none).map Prod.snd

/-! ### Objectives -/

/-- `Some(w)` of a text that is a float, neither negative nor infinite nor NaN. -/
def isWeight (rt : Runtime) (weightRepr : String) : Bool :=
  (rt.f64 weightRepr).any fun w => !rt.isNegative w && rt.isFinite w

def decodeWeight (rt : Runtime) : Value → Option (String × String)
  | .map entry => do
    let nodeTypePrefix ← string? entry "prefix"
    let weightRepr ← string? entry "weight_repr"
    if isWeight rt weightRepr then some (nodeTypePrefix, weightRepr) else none
  | _ => none

def decodeOwnerObjective (rt : Runtime) (bytes : Bytes) : Option OwnerObjective := do
  let m ← decodeMap? bytes
  let objectiveId ← string? m "objective_id"
  let declaredAtCycle ← uint? m "declared_at_cycle"
  let weights ← (← items? m "weights").mapM (decodeWeight rt)
  return ⟨objectiveId, declaredAtCycle, weights⟩

def ownerObjectiveDeclaredPrefix : String := "owner_objective_declared:"

def encodeOwnerObjectiveDeclared (objectiveId : String) (declaredAtCycle weightsCount : UInt64) :
    Bytes :=
  cbEncode [("objective_id", .string objectiveId), ("declared_at_cycle", .uint declaredAtCycle),
    ("weights_count", .uint weightsCount)]

/-! ### Compression -/

structure CompressionWitness where
  ruleId : String
  compressedNodeHashes : List Hash32
  aggregateSummary : Bytes
  attestationDagTip : Hash32

def hash? : Value → Option Hash32
  | .bytes b => if h : b.length = 32 then some ⟨b, h⟩ else none
  | _ => none

def decodeCompressionWitnessMinimal (bytes : Bytes) : Option CompressionWitness := do
  let m ← decodeMap? bytes
  let ruleId ← string? m "rule_id"
  let hashes ← (← items? m "compressed_node_hashes").mapM hash?
  let aggregateSummary ← blob? m "aggregate_summary"
  let attestationDagTip ← bytes32? m "attestation_dag_tip"
  return ⟨ruleId, hashes, aggregateSummary, attestationDagTip⟩

structure CompressionInvariantSet where
  forbiddenPrefixes : List String
  recentCyclesFloor : UInt64

def seedCompressionInvariantSet : CompressionInvariantSet where
  forbiddenPrefixes := ["genesis_event:", "owner_key_", "mutation:", "evolution_succeeded:",
    "evolution_failed:", "self_euthanasia_", "federation_peer_pinned:",
    "birth_period_quarantine_", "operator_pinned:", "compression_event:"]
  recentCyclesFloor := 1000

def nodeTypeInInvariantSet (nodeType : String) (invariantSet : CompressionInvariantSet) : Bool :=
  invariantSet.forbiddenPrefixes.any (startsWith · nodeType)

/-- Why a node must not be compressed away, if there is a reason. -/
def compressionViolation (nodes : List DagNode) (currentCycle : UInt64) (ruleId : String)
    (h : Hash32) : Option String :=
  match nodes.find? (·.hash = h) with
  | none => some "compression witness references node hash not present in DAG"
  | some node =>
    if nodeTypeInInvariantSet node.nodeType seedCompressionInvariantSet then
      some s!"compression targets invariant-set node_type={node.nodeType} (rule_id={ruleId})"
    else
      let age := saturatingSub currentCycle node.createdAtCycle
      let floor := seedCompressionInvariantSet.recentCyclesFloor
      if age < floor then
        some s!"compression targets node from cycle {node.createdAtCycle} (age {age} < floor {floor})"
      else none

def compressionEventPrefix : String := "compression_event:"

def encodeCompressionEvent (w : CompressionWitness) (emittedAtCycle : UInt64) : Bytes :=
  cbEncode [("rule_id", .string w.ruleId),
    ("compressed_node_hashes", .array (w.compressedNodeHashes.map hashValue)),
    ("aggregate_summary", .bytes w.aggregateSummary),
    ("witness_at_dag_tip", hashValue w.attestationDagTip), ("emitted_at_cycle", .uint emittedAtCycle)]

/-! ### Revocations -/

def revokeFederationPeerDomain : String := "myco-federation-peer-revoke-v1"

/-- The body of a `revoke_federation_peer`. -/
structure RevocationBody where
  revokedPeerSubstrateId : Hash32
  revokedPubkey : Hash32
  reason : String
  anchorTimestampUnixSeconds : UInt64

def decodeRevokeFederationPeer (bytes : Bytes) : Option RevocationBody := do
  let m ← decodeMap? bytes
  if string? m "domain" = some revokeFederationPeerDomain then
    return ⟨← bytes32? m "revoked_peer_substrate_id", ← bytes32? m "revoked_pubkey",
      ← string? m "reason", ← uint? m "anchor_timestamp_unix_seconds"⟩
  else none

end Myco.Tropism
