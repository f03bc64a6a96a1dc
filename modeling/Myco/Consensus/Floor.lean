import Mathlib.Data.List.Sort
import Myco.Consensus.Tally
import Myco.Substrate.Additions

/-!
# The consensus floor

The events that record that the floor became active or inactive, and
`emit_consensus_floor_crossing_if_needed`, which a poll and a connection out end with.
-/

namespace Myco.Consensus

open Myco.Lib Myco.Canonical Myco.Schema Myco.Substrate Myco.Federation

variable {env : Env}

/-- The ids sorted by their bytes, none twice. -/
def sortedIds (ids : List Hash32) : List Hash32 :=
  ids.dedup.insertionSort fun a b => a.bytes ≤ b.bytes

def peerSetMerkleRoot (env : Env) (pinnedPeerIds : List Hash32) : Hash32 :=
  let sorted := sortedIds pinnedPeerIds
  env.blake3 (utf8 "myco-peer-set-merkle-root-v1" ++ u64Be (UInt64.ofNat sorted.length) ++
    sorted.flatMap Hash32.bytes)

def consensusFloorActivatedType : String := "consensus_floor_activated"

def encodeConsensusFloorActivated (peerCount : Nat) (activationCycle : UInt64)
    (peerSetMerkleRoot : Hash32) : Bytes :=
  cbEncode [("peer_count", .uint (UInt64.ofNat peerCount)), ("activation_cycle", .uint activationCycle),
    ("peer_set_merkle_root", hashValue peerSetMerkleRoot)]

def consensusFloorDeactivatedType : String := "consensus_floor_deactivated"

def encodeConsensusFloorDeactivated (peerCount : Nat) (deactivationCycle : UInt64) : Bytes :=
  cbEncode [("peer_count", .uint (UInt64.ofNat peerCount)),
    ("deactivation_cycle", .uint deactivationCycle)]

def emitConsensusFloorCrossingIfNeeded (priorPeerCount : Nat) : Handler env PUnit := do
  let s ← get
  let nowCount := s.federation.peerCount
  let wasActive : Bool := priorPeerCount ≥ consensusFloorMinPeers
  let isActive : Bool := nowCount ≥ consensusFloorMinPeers
  if wasActive = isActive then pure ()
  else if isActive then
    let root := peerSetMerkleRoot env s.federation.peerIds
    let _ ← emitSubstrateEvent consensusFloorActivatedType
      (encodeConsensusFloorActivated nowCount s.cycleCounter root)
  else
    let _ ← emitSubstrateEvent consensusFloorDeactivatedType
      (encodeConsensusFloorDeactivated nowCount s.cycleCounter)

/-! ### Nodes that consensus does not read -/

/-- Neither a pin nor a vote nor a certificate. -/
structure Plain (n : DagNode) : Prop where
  pin : pinOf n = none
  vote : ∀ claimType, voteOf claimType n = none
  cert : ∀ claimType ch, certOn claimType ch n = none

/-- No text starts with both `p` and one of the types that consensus reads. -/
def PlainPrefix (p : String) : Prop :=
  ∀ q ∈ [federationPeerPinnedPrefix, populationVotePrefix, populationConsensusReachedPrefix],
    Apart p q

theorem plain_of_startsWith {p : String} {n : DagNode} (h : startsWith p n.nodeType)
    (hp : PlainPrefix p) : Plain n := by
  have hne : ∀ q ∈ [federationPeerPinnedPrefix, populationVotePrefix,
      populationConsensusReachedPrefix], ¬ startsWith q n.nodeType := fun q hq =>
    not_startsWith h (hp q hq)
  refine ⟨if_neg (hne _ (by simp)), fun ct => if_neg fun hc => ?_, fun ct ch => if_neg fun hc => ?_⟩
  · exact hne populationVotePrefix (by simp) (hc ▸ startsWith_append)
  · exact hne populationConsensusReachedPrefix (by simp) (hc ▸ startsWith_append)

theorem plain_immune {n : DagNode} (h : startsWith immunePrefix n.nodeType) : Plain n :=
  plain_of_startsWith h (by unfold PlainPrefix; decide)

theorem plain_of_type {t : String} {n : DagNode} (h : n.nodeType = t) (hp : PlainPrefix t) :
    Plain n :=
  plain_of_startsWith (p := t) (by simp [h, startsWith]) hp

theorem adds_emitConsensusFloorCrossing {priorPeerCount : Nat} :
    Within (Adds Plain) (emitConsensusFloorCrossingIfNeeded priorPeerCount : Handler env PUnit) := by
  refine within_bind within_get fun s => ?_
  dsimp only
  split
  · exact within_pure
  · split
    · exact within_bind (adds_emitSubstrateEvent fun n h _ _ =>
        plain_of_type h (by unfold PlainPrefix; decide)) fun _ => within_pure
    · exact within_bind (adds_emitSubstrateEvent fun n h _ _ =>
        plain_of_type h (by unfold PlainPrefix; decide)) fun _ => within_pure

end Myco.Consensus
