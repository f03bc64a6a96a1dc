import Myco.Lib.Ballots
import Myco.Substrate.Events

/-!
# Votes and certificates

The events of the population-consensus floor (`substrate/src/events/consensus.rs`): the fault bound,
the message that a vote signs, and the bodies of votes, certificates and witnesses, encoded,
decoded and verified.

What is written is read back (`decode_encodePopulationVote`, `decode_encodePopulationConsensusReached`),
and no two votes sign the same message (`signingMessage_inj`).
-/

namespace Myco.Consensus

open Myco.Lib Myco.Canonical Myco.Schema Myco.Substrate Myco.Federation

/-! ### The fault bound -/

/-- `n.saturating_sub(1) / 3` -/
def fTolerated (n : Nat) : Nat := (n - 1) / 3

def quorumThreshold (n : Nat) : Nat := n - fTolerated n

theorem quorumThreshold_mono {m n : Nat} (h : m ≤ n) : quorumThreshold m ≤ quorumThreshold n := by
  simp only [quorumThreshold, fTolerated]
  omega

theorem quorumThreshold_pos {n : Nat} (h : 0 < n) : 0 < quorumThreshold n := by
  simp only [quorumThreshold, fTolerated]
  omega

/-- With three peers or more, no quorum is smaller than three. -/
theorem three_le_quorumThreshold {n : Nat} : 3 ≤ quorumThreshold n ↔ 3 ≤ n := by
  simp only [quorumThreshold, fTolerated]
  omega

/-! ### Claims -/

def populationVoteContext : String := "myco-population-vote-v1"

def consensusFloorMinPeers : Nat := 3

inductive PopulationClaimClass where
  | peerRevocation
  | universalJunkClassification
  | crossSubstrateAggregateMetric
deriving DecidableEq

namespace PopulationClaimClass

def claimType : PopulationClaimClass → String
  | peerRevocation => "peer_revocation"
  | universalJunkClassification => "universal_junk_classification"
  | crossSubstrateAggregateMetric => "cross_substrate_aggregate_metric"

def fromClaimType (s : String) : Option PopulationClaimClass :=
  if s = "peer_revocation" then some peerRevocation
  else if s = "universal_junk_classification" then some universalJunkClassification
  else if s = "cross_substrate_aggregate_metric" then some crossSubstrateAggregateMetric
  else none

end PopulationClaimClass

variable (env : Env)

/-- BLAKE3 of the claim's canonical bytes. -/
def claimHash (claimPayload : Bytes) : Hash32 := env.blake3 claimPayload

def signingEntries (claimType : String) (claimHash signerSubstrateId : Hash32) (roundId : UInt64)
    (peerDagTipAtVote : Hash32) : List (String × Value) :=
  [("context", .string populationVoteContext), ("claim_type", .string claimType),
    ("claim_hash", hashValue claimHash), ("peer_substrate_id", hashValue signerSubstrateId),
    ("round_id", .uint roundId), ("peer_dag_tip_at_vote", hashValue peerDagTipAtVote)]

def buildPopulationVoteSigningMessage (claimType : String) (claimHash signerSubstrateId : Hash32)
    (roundId : UInt64) (peerDagTipAtVote : Hash32) : Bytes :=
  cbEncode (signingEntries claimType claimHash signerSubstrateId roundId peerDagTipAtVote)

/-! ### Votes -/

def populationVotePrefix : String := "population_vote:"

def populationVoteNodeType (claimType : String) : String := populationVotePrefix ++ claimType

structure DecodedPopulationVote where
  claimType : String
  claimHash : Hash32
  claimPayload : Bytes
  roundId : UInt64
  voterSubstrateId : Hash32
  voterSignature : Signature
  peerDagTipAtVote : Hash32
deriving DecidableEq

/-- `encode_population_vote` of the fields of a vote. -/
def encodePopulationVote (v : DecodedPopulationVote) (emittedAtCycle : UInt64) : Bytes :=
  cbEncode [("claim_type", .string v.claimType), ("claim_hash", hashValue v.claimHash),
    ("claim_payload", .bytes v.claimPayload), ("round_id", .uint v.roundId),
    ("voter_substrate_id", hashValue v.voterSubstrateId),
    ("voter_signature", .bytes v.voterSignature.bytes),
    ("peer_dag_tip_at_vote", hashValue v.peerDagTipAtVote),
    ("emitted_at_cycle", .uint emittedAtCycle)]

def decodePopulationVote (bytes : Bytes) : Option DecodedPopulationVote := do
  let m ← decodeMap? bytes
  let claimType ← string? m "claim_type"
  let claimHash ← bytes32? m "claim_hash"
  let claimPayload ← blob? m "claim_payload"
  let roundId ← uint? m "round_id"
  let voterSubstrateId ← bytes32? m "voter_substrate_id"
  let voterSignature ← bytes64? m "voter_signature"
  let peerDagTipAtVote ← bytes32? m "peer_dag_tip_at_vote"
  some { claimType, claimHash, claimPayload, roundId, voterSubstrateId, voterSignature,
         peerDagTipAtVote }

namespace DecodedPopulationVote

/-- The message that the vote must have signed. -/
def signingMessage (v : DecodedPopulationVote) : Bytes :=
  buildPopulationVoteSigningMessage v.claimType v.claimHash v.voterSubstrateId v.roundId
    v.peerDagTipAtVote

end DecodedPopulationVote

def verifyPopulationVote (vote : DecodedPopulationVote) (voterSignerPubkey : Hash32) : Bool :=
  env.signatures.verifySignature voterSignerPubkey vote.voterSignature vote.signingMessage

/-! ### Certificates -/

def populationConsensusReachedPrefix : String := "population_consensus_reached:"

def populationConsensusReachedNodeType (claimType : String) : String :=
  populationConsensusReachedPrefix ++ claimType

structure CertPeerVote where
  peerSubstrateId : Hash32
  peerSignature : Signature
  peerDagTipAtVote : Hash32
deriving DecidableEq

structure DecodedQuorumCert where
  claimType : String
  claimHash : Hash32
  claimPayload : Bytes
  roundId : UInt64
  quorumSize : UInt64
  peerSetSizeN : UInt64
  fTolerated : UInt64
  peerVotes : List CertPeerVote
deriving DecidableEq

def CertPeerVote.toValue (v : CertPeerVote) : Value :=
  mapOf [("peer_substrate_id", hashValue v.peerSubstrateId),
    ("peer_signature", .bytes v.peerSignature.bytes),
    ("peer_dag_tip_at_vote", hashValue v.peerDagTipAtVote)]

def certOf (claimType : String) (claimHash : Hash32) (claimPayload : Bytes) (roundId : UInt64)
    (peerSetSizeN fToleratedValue : Nat) (peerVotes : List CertPeerVote) : DecodedQuorumCert where
  claimType
  claimHash
  claimPayload
  roundId
  quorumSize := UInt64.ofNat peerVotes.length
  peerSetSizeN := UInt64.ofNat peerSetSizeN
  fTolerated := UInt64.ofNat fToleratedValue
  peerVotes

/-- `encode_population_consensus_reached` of the fields of a certificate. -/
def encodePopulationConsensusReached (c : DecodedQuorumCert) (reachedAtCycle : UInt64) : Bytes :=
  cbEncode [("claim_type", .string c.claimType), ("claim_hash", hashValue c.claimHash),
    ("claim_payload", .bytes c.claimPayload), ("round_id", .uint c.roundId),
    ("quorum_size", .uint c.quorumSize), ("peer_set_size_n", .uint c.peerSetSizeN),
    ("f_tolerated", .uint c.fTolerated),
    ("peer_votes", .array (c.peerVotes.map CertPeerVote.toValue)),
    ("reached_at_cycle", .uint reachedAtCycle)]

def CertPeerVote.ofValue? (v : Value) : Option CertPeerVote := do
  let vm ← v.map?
  let peerSubstrateId ← bytes32? vm "peer_substrate_id"
  let peerSignature ← bytes64? vm "peer_signature"
  let peerDagTipAtVote ← bytes32? vm "peer_dag_tip_at_vote"
  some { peerSubstrateId, peerSignature, peerDagTipAtVote }

def decodePopulationConsensusReached (bytes : Bytes) : Option DecodedQuorumCert := do
  let m ← decodeMap? bytes
  let claimType ← string? m "claim_type"
  let claimHash ← bytes32? m "claim_hash"
  let claimPayload ← blob? m "claim_payload"
  let roundId ← uint? m "round_id"
  let quorumSize ← uint? m "quorum_size"
  let peerSetSizeN ← uint? m "peer_set_size_n"
  let fTolerated ← uint? m "f_tolerated"
  let votesArr ← items? m "peer_votes"
  let peerVotes ← votesArr.mapM CertPeerVote.ofValue?
  some { claimType, claimHash, claimPayload, roundId, quorumSize, peerSetSizeN, fTolerated,
         peerVotes }

inductive CertVerifyOutcome where
  | valid (verifiedDistinctVoters : Nat)
  | invalid (reason : String)
deriving DecidableEq

/-- The message that an entry of a certificate must have signed. -/
def DecodedQuorumCert.signingMessage (cert : DecodedQuorumCert) (v : CertPeerVote) : Bytes :=
  buildPopulationVoteSigningMessage cert.claimType cert.claimHash v.peerSubstrateId cert.roundId
    v.peerDagTipAtVote

/-- Whether the loop of `verify_quorum_cert` counts the entry. -/
def entryVerifies (cert : DecodedQuorumCert) (resolvePinnedPubkey : Hash32 → Option Hash32)
    (v : CertPeerVote) : Bool :=
  (resolvePinnedPubkey v.peerSubstrateId).any fun pubkey =>
    env.signatures.verifySignature pubkey v.peerSignature (cert.signingMessage v)

def verifiedVoters (cert : DecodedQuorumCert) (resolvePinnedPubkey : Hash32 → Option Hash32) :
    Finset Hash32 :=
  voters CertPeerVote.peerSubstrateId
    (cert.peerVotes.filter (entryVerifies env cert resolvePinnedPubkey))

def verifyQuorumCert (cert : DecodedQuorumCert) (resolvePinnedPubkey : Hash32 → Option Hash32) :
    CertVerifyOutcome :=
  let recomputed := claimHash env cert.claimPayload
  if recomputed ≠ cert.claimHash then
    .invalid s!"claim_hash {hexPrefix cert.claimHash.bytes 8} does not match BLAKE3(claim_payload) {
      hexPrefix recomputed.bytes 8}"
  else
    let n := cert.peerSetSizeN.toNat
    let verifiedCount := (verifiedVoters env cert resolvePinnedPubkey).card
    if verifiedCount < quorumThreshold n then
      .invalid s!"verified distinct voters {verifiedCount} < quorum_threshold({n}) = {
        quorumThreshold n}"
    else .valid verifiedCount

/-! ### Witnesses -/

def populationConsensusPendingNodeType (claimType : String) : String :=
  "population_consensus_pending:" ++ claimType

def encodePopulationConsensusPending (claimType : String) (claimHash : Hash32) (roundId : UInt64)
    (votesReceived quorumNeeded : Nat) (atCycle : UInt64) : Bytes :=
  cbEncode [("claim_type", .string claimType), ("claim_hash", hashValue claimHash),
    ("round_id", .uint roundId), ("votes_received", .uint (UInt64.ofNat votesReceived)),
    ("quorum_needed", .uint (UInt64.ofNat quorumNeeded)), ("at_cycle", .uint atCycle)]

def byzantineThresholdCheckNodeType (claimType : String) : String :=
  "byzantine_threshold_check:" ++ claimType

def encodeByzantineThresholdCheck (claimType : String)
    (peerSetSizeN fToleratedValue votesReceived votesConsistent : Nat) (roundId atCycle : UInt64) :
    Bytes :=
  cbEncode [("claim_type", .string claimType), ("peer_set_size_n", .uint (UInt64.ofNat peerSetSizeN)),
    ("f_tolerated", .uint (UInt64.ofNat fToleratedValue)),
    ("votes_received", .uint (UInt64.ofNat votesReceived)),
    ("votes_consistent", .uint (UInt64.ofNat votesConsistent)), ("round_id", .uint roundId),
    ("at_cycle", .uint atCycle)]

/-! ### What is written is read back -/

theorem decode_encodePopulationVote {v : DecodedPopulationVote} {cycle : UInt64}
    (hmem : (encodePopulationVote v cycle).length ≤ isizeMax) :
    decodePopulationVote (encodePopulationVote v cycle) = some v := by
  rw [decodePopulationVote, encodePopulationVote,
    decodeMap?_cbEncode hmem (by simp [hashValue, Value.WF]), Option.bind_eq_bind,
    Option.bind_some,
    string?_eq (s := v.claimType) (by simp [get_mapOf, OrdMap.get_cons]),
    bytes32?_eq (h := v.claimHash) (by simp [get_mapOf, OrdMap.get_cons]),
    blob?_eq (b := v.claimPayload) (by simp [get_mapOf, OrdMap.get_cons]),
    uint?_eq (n := v.roundId) (by simp [get_mapOf, OrdMap.get_cons]),
    bytes32?_eq (h := v.voterSubstrateId) (by simp [get_mapOf, OrdMap.get_cons]),
    bytes64?_eq (s := v.voterSignature) (by simp [get_mapOf, OrdMap.get_cons]),
    bytes32?_eq (h := v.peerDagTipAtVote) (by simp [get_mapOf, OrdMap.get_cons])]
  rfl

theorem CertPeerVote.toValue_wf {v : CertPeerVote} : v.toValue.WF :=
  mapOf_wf (by simp [hashValue, Value.WF])

theorem CertPeerVote.ofValue?_toValue {v : CertPeerVote} : ofValue? v.toValue = some v := by
  show (do
    let peerSubstrateId ← bytes32? (OrdMap.ofList utf8 _) "peer_substrate_id"
    let peerSignature ← bytes64? (OrdMap.ofList utf8 _) "peer_signature"
    let peerDagTipAtVote ← bytes32? (OrdMap.ofList utf8 _) "peer_dag_tip_at_vote"
    some (CertPeerVote.mk peerSubstrateId peerSignature peerDagTipAtVote)) = _
  rw [bytes32?_eq (h := v.peerSubstrateId) (by simp [get_mapOf, OrdMap.get_cons]),
    bytes64?_eq (s := v.peerSignature) (by simp [get_mapOf, OrdMap.get_cons]),
    bytes32?_eq (h := v.peerDagTipAtVote) (by simp [get_mapOf, OrdMap.get_cons])]
  rfl

theorem mapM_ofValue?_toValue {vs : List CertPeerVote} :
    (vs.map CertPeerVote.toValue).mapM CertPeerVote.ofValue? = some vs := by
  induction vs with
  | nil => rfl
  | cons v vs ih => rw [List.map_cons, List.mapM_cons, CertPeerVote.ofValue?_toValue, ih]; rfl

theorem decode_encodePopulationConsensusReached {c : DecodedQuorumCert} {cycle : UInt64}
    (hmem : (encodePopulationConsensusReached c cycle).length ≤ isizeMax) :
    decodePopulationConsensusReached (encodePopulationConsensusReached c cycle) = some c := by
  have hitems : WFItems (c.peerVotes.map CertPeerVote.toValue) := by
    simp [wfItems_iff, CertPeerVote.toValue_wf]
  rw [decodePopulationConsensusReached, encodePopulationConsensusReached,
    decodeMap?_cbEncode hmem (by simp [hashValue, Value.WF, hitems]), Option.bind_eq_bind,
    Option.bind_some,
    string?_eq (s := c.claimType) (by simp [get_mapOf, OrdMap.get_cons]),
    bytes32?_eq (h := c.claimHash) (by simp [get_mapOf, OrdMap.get_cons]),
    blob?_eq (b := c.claimPayload) (by simp [get_mapOf, OrdMap.get_cons]),
    uint?_eq (n := c.roundId) (by simp [get_mapOf, OrdMap.get_cons]),
    uint?_eq (n := c.quorumSize) (by simp [get_mapOf, OrdMap.get_cons]),
    uint?_eq (n := c.peerSetSizeN) (by simp [get_mapOf, OrdMap.get_cons]),
    uint?_eq (n := c.fTolerated) (by simp [get_mapOf, OrdMap.get_cons]),
    items?_eq (l := c.peerVotes.map CertPeerVote.toValue) (by simp [get_mapOf, OrdMap.get_cons])]
  simp only [Option.bind_eq_bind, Option.bind_some, mapM_ofValue?_toValue]

/-! ### What a message says -/

theorem signingEntries_fits {claimType : String} {claimHash id tip : Hash32} {round : UInt64}
    (h : (utf8 claimType).length < 2 ^ 64) :
    (mapOf (signingEntries claimType claimHash id round tip)).canonical.Every FitsU64 := by
  refine mapOf_fits (by simp [signingEntries]) ?_
  have hb : ∀ x : Hash32, x.bytes.length < 2 ^ 64 := fun x => by simp [x.length_eq]
  simp only [signingEntries, List.forall_mem_cons, hashValue, Value.canonical, Tlv.Every, FitsU64,
    Leb.value_ofNat, hb, h, and_true, List.not_mem_nil, false_imp_iff, implies_true]
  decide

/-- A message is signed for one claim, by one voter, in one round, on one tip. -/
theorem signingMessage_inj {claimType claimType' : String} {claimHash claimHash' id id' tip tip' : Hash32}
    {round round' : UInt64} (ht : (utf8 claimType).length < 2 ^ 64)
    (ht' : (utf8 claimType').length < 2 ^ 64)
    (h : buildPopulationVoteSigningMessage claimType claimHash id round tip =
      buildPopulationVoteSigningMessage claimType' claimHash' id' round' tip') :
    claimType = claimType' ∧ claimHash = claimHash' ∧ id = id' ∧ round = round' ∧ tip = tip' := by
  have hget := cbEncode_inj (by simp [signingEntries, hashValue, Value.WF])
    (by simp [signingEntries, hashValue, Value.WF]) (signingEntries_fits ht)
    (signingEntries_fits ht') h
  have h1 := hget "claim_type"
  have h2 := hget "claim_hash"
  have h3 := hget "peer_substrate_id"
  have h4 := hget "round_id"
  have h5 := hget "peer_dag_tip_at_vote"
  simp [signingEntries, get_mapOf, OrdMap.get_cons, hashValue] at h1 h2 h3 h4 h5
  exact ⟨h1, Hash32.ext h2, Hash32.ext h3, h4, Hash32.ext h5⟩

theorem claimType_fits_cert {bytes : Bytes} {c : DecodedQuorumCert}
    (h : decodePopulationConsensusReached bytes = some c) : (utf8 c.claimType).length < 2 ^ 64 := by
  simp only [decodePopulationConsensusReached, Option.bind_eq_bind, Option.bind_eq_some_iff] at h
  obtain ⟨m, hm, ct, hct, _, _, _, _, _, _, _, _, _, _, _, _, _, _, _, _, h⟩ := h
  cases h
  exact string?_fits hm hct

end Myco.Consensus
