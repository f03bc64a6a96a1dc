import Myco.Consensus.Votes
import Myco.Federation.Events

/-!
# Counting votes

What the consensus handlers derive from the log and the live connections
(`substrate/src/consensus.rs`): the pinned keys, the size of the peer set, the votes on a claim in a
round, the tally, and the certificate that the gate accepts.

A vote counts when it verifies under the key of its voter, `resolvePubkey`. The tally, the entries
of a new certificate and the gate count the same way (`collectCertVotes_voters`).
-/

namespace Myco.Consensus

open Myco.Lib Myco.Canonical Myco.Schema Myco.Substrate Myco.Federation

variable {env : Env}

/-! ### The peer set -/

/-- `state.substrate_id()` -/
def ownId (s : ServerState env) : Hash32 := s.substrateId.getD (.replicate 0)

def substrateSigningPubkey (s : ServerState env) : Hash32 :=
  env.signatures.publicKey s.substrateSigningSeed

def consensusFloorActive (s : ServerState env) : Bool :=
  s.federation.peerCount ≥ consensusFloorMinPeers

/-- The peer and the key that a node pins. -/
def pinOf (node : DagNode) : Option (Hash32 × Hash32) :=
  if startsWith federationPeerPinnedPrefix node.nodeType then
    decodeFederationPeerPinnedSigner node.content
  else none

/-- One turn of the loop of `derive_pinned_signer_pubkeys`. -/
def pinEvent (revoked : List Hash32) (out : List (Hash32 × Hash32)) (node : DagNode) :
    List (Hash32 × Hash32) :=
  match pinOf node with
  | some (id, pk) => if id ∈ revoked then out else OrdMap.insert Hash32.bytes id pk out
  | none => out

/-- The pins of a log. -/
def pinsOf (revoked : List Hash32) (nodes : List DagNode) : List (Hash32 × Hash32) :=
  nodes.foldl (pinEvent revoked) []

def derivePinnedSignerPubkeys (s : ServerState env) : List (Hash32 × Hash32) :=
  pinsOf s.revokedFederationPeers s.nodes

/-- The live peers that are not revoked. -/
def liveNonRevoked (s : ServerState env) : Finset Hash32 :=
  (s.federation.peerIds.filter (· ∉ s.revokedFederationPeers)).toFinset

def peerSetSizeN (s : ServerState env) : Nat := (liveNonRevoked s).card + 1

/-! ### The votes -/

def voteOf (claimType : String) (node : DagNode) : Option DecodedPopulationVote :=
  if node.nodeType = populationVoteNodeType claimType then decodePopulationVote node.content
  else none

def claimVotes (s : ServerState env) (claimType : String) (claimHash : Hash32) :
    List DecodedPopulationVote :=
  (s.nodes.filterMap (voteOf claimType)).filter (·.claimHash = claimHash)

/-- The votes on one triple, as the loops over the log meet them. -/
def votesOn (s : ServerState env) (claimType : String) (claimHash : Hash32) (roundId : UInt64) :
    List DecodedPopulationVote :=
  (claimVotes s claimType claimHash).filter (·.roundId = roundId)

def nextRoundId (s : ServerState env) (claimType : String) (claimHash : Hash32) : UInt64 :=
  let maxRound := (claimVotes s claimType claimHash).foldl
    (fun m v => some (m.elim v.roundId (max · v.roundId))) none
  match maxRound with
  | some r => r + 1
  | none => 0

def populationVoteAlreadyRecorded (s : ServerState env) (claimType : String) (claimHash : Hash32)
    (roundId : UInt64) (voterSubstrateId : Hash32) : Bool :=
  (votesOn s claimType claimHash roundId).any (·.voterSubstrateId = voterSubstrateId)

/-- The voter's key: this substrate's own, or the pinned one. -/
def resolvePubkey (s : ServerState env) (pins : List (Hash32 × Hash32)) (id : Hash32) :
    Option Hash32 :=
  if id = ownId s then some (substrateSigningPubkey s) else OrdMap.get id pins

def voteVerifies (s : ServerState env) (pins : List (Hash32 × Hash32))
    (vote : DecodedPopulationVote) : Bool :=
  (resolvePubkey s pins vote.voterSubstrateId).any (verifyPopulationVote env vote)

/-- Who has voted, with a vote that verifies. -/
def tallied (s : ServerState env) (claimType : String) (claimHash : Hash32) (roundId : UInt64)
    (pins : List (Hash32 × Hash32)) : Finset Hash32 :=
  voters DecodedPopulationVote.voterSubstrateId
    ((votesOn s claimType claimHash roundId).filter (voteVerifies s pins))

/-- The distinct verified voters, and the votes seen. -/
def tallyVotes (s : ServerState env) (claimType : String) (claimHash : Hash32) (roundId : UInt64)
    (pins : List (Hash32 × Hash32)) : Nat × Nat :=
  ((tallied s claimType claimHash roundId pins).card,
    (votesOn s claimType claimHash roundId).length)

def DecodedPopulationVote.certEntry (v : DecodedPopulationVote) : CertPeerVote :=
  ⟨v.voterSubstrateId, v.voterSignature, v.peerDagTipAtVote⟩

def collectCertVotes (s : ServerState env) (claimType : String) (claimHash : Hash32)
    (roundId : UInt64) (pins : List (Hash32 × Hash32)) : List CertPeerVote :=
  (firstOfEach DecodedPopulationVote.voterSubstrateId []
    ((votesOn s claimType claimHash roundId).filter (voteVerifies s pins))).map
      DecodedPopulationVote.certEntry

/-! ### The gate -/

/-- The certificate of a node, if its type and its body's hash are those of the claim. -/
def certOn (claimType : String) (claimHash : Hash32) (node : DagNode) : Option DecodedQuorumCert :=
  if node.nodeType = populationConsensusReachedNodeType claimType then
    (decodePopulationConsensusReached node.content).filter (·.claimHash = claimHash)
  else none

/-- The voters that `verify_quorum_cert` counts, if it finds the certificate valid and they meet the
local threshold. -/
def certAccepted (s : ServerState env) (pins : List (Hash32 × Hash32)) (localThreshold : Nat)
    (cert : DecodedQuorumCert) : Option Nat :=
  match verifyQuorumCert env cert (resolvePubkey s pins) with
  | .valid verifiedDistinctVoters =>
    if verifiedDistinctVoters ≥ localThreshold then some verifiedDistinctVoters else none
  | .invalid _ => none

def findValidQuorumCert (s : ServerState env) (claimType : String) (claimHash : Hash32) :
    Option (NodeHash × Nat) :=
  let pins := derivePinnedSignerPubkeys s
  let localThreshold := quorumThreshold (peerSetSizeN s)
  s.nodes.findSome? fun node =>
    (certOn claimType claimHash node).bind fun cert =>
      (certAccepted s pins localThreshold cert).map fun n => (node.hash, n)

/-! ### The pins -/

section

variable {s : ServerState env} {ns : List DagNode} {node : DagNode} {id pk : Hash32}

theorem hash32_bytes_injective : Function.Injective Hash32.bytes := fun _ _ => Hash32.ext

/-- The last pin of a peer wins, unless the peer is revoked. -/
theorem get_pinsOf_append_singleton {revoked : List Hash32} :
    OrdMap.get id (pinsOf revoked (ns ++ [node])) =
      match pinOf node with
      | some (id', pk) =>
        if id = id' ∧ id ∉ revoked then some pk else OrdMap.get id (pinsOf revoked ns)
      | none => OrdMap.get id (pinsOf revoked ns) := by
  rw [pinsOf, List.foldl_append, List.foldl_cons, List.foldl_nil, ← pinsOf, pinEvent]
  cases pinOf node with
  | none => rfl
  | some p =>
    obtain ⟨id', pk⟩ := p
    dsimp only
    split
    · rename_i hr
      rw [if_neg]
      rintro ⟨rfl, h⟩
      exact h hr
    · rename_i hr
      rw [OrdMap.get_insert hash32_bytes_injective]
      by_cases h : id = id'
      · rw [if_pos h, if_pos ⟨h, h ▸ hr⟩]
      · rw [if_neg h, if_neg fun hc => h hc.1]

/-- Revoking a peer drops its pin, and no other. -/
theorem get_pinsOf {revoked : List Hash32} :
    OrdMap.get id (pinsOf revoked ns) =
      if id ∈ revoked then none else OrdMap.get id (pinsOf [] ns) := by
  induction ns using List.reverseRecOn with
  | nil => simp [pinsOf]
  | append_singleton ns n ih =>
    rw [get_pinsOf_append_singleton, get_pinsOf_append_singleton, ih]
    cases pinOf n with
    | none => rfl
    | some p =>
      by_cases h : id ∈ revoked
      · simp [h]
      · simp [h]

/-- A revoked peer has no pin. -/
theorem notMem_revoked_of_pin (h : OrdMap.get id (derivePinnedSignerPubkeys s) = some pk) :
    id ∉ s.revokedFederationPeers := by
  rw [derivePinnedSignerPubkeys, get_pinsOf] at h
  split at h
  · cases h
  · assumption

end

/-! ### The gate and the tally -/

section

variable {s : ServerState env} {pins : List (Hash32 × Hash32)} {claimType : String}
  {ch h : Hash32} {round : UInt64} {n t : Nat} {cert : DecodedQuorumCert}

theorem certAccepted_eq_some : certAccepted s pins t cert = some n ↔
    claimHash env cert.claimPayload = cert.claimHash ∧
    quorumThreshold cert.peerSetSizeN.toNat ≤ n ∧ t ≤ n ∧
    (verifiedVoters env cert (resolvePubkey s pins)).card = n := by
  unfold certAccepted verifyQuorumCert
  by_cases h1 : claimHash env cert.claimPayload = cert.claimHash
  · rw [if_neg (not_not.2 h1)]
    dsimp only
    by_cases h2 : (verifiedVoters env cert (resolvePubkey s pins)).card <
        quorumThreshold cert.peerSetSizeN.toNat
    · rw [if_pos h2]
      constructor
      · intro h
        cases h
      · rintro ⟨-, h3, -, rfl⟩
        exact absurd h2 (Nat.not_lt.2 h3)
    · rw [if_neg h2]
      dsimp only
      split
      · rename_i h3
        constructor
        · intro h
          cases h
          exact ⟨h1, Nat.not_lt.1 h2, h3, rfl⟩
        · rintro ⟨-, -, -, rfl⟩
          rfl
      · rename_i h3
        constructor
        · intro h
          cases h
        · rintro ⟨-, -, h4, rfl⟩
          exact absurd h4 h3
  · rw [if_pos h1]
    constructor
    · intro h
      cases h
    · rintro ⟨h, -⟩
      exact absurd h h1

/-- The node passes the gate's checks, with the certificate `cert` and `n` voters. -/
def Passes (s : ServerState env) (claimType : String) (claimHash : Hash32) (node : DagNode)
    (cert : DecodedQuorumCert) (n : Nat) : Prop :=
  certOn claimType claimHash node = some cert ∧
  certAccepted s (derivePinnedSignerPubkeys s) (quorumThreshold (peerSetSizeN s)) cert = some n

/-- The gate answers with the first node that passes. -/
theorem findValidQuorumCert_eq_some : findValidQuorumCert s claimType ch = some (h, n) ↔
    ∃ xs node ys cert, s.nodes = xs ++ node :: ys ∧
      (∀ m ∈ xs, ∀ c k, ¬ Passes s claimType ch m c k) ∧
      Passes s claimType ch node cert n ∧ node.hash = h := by
  unfold findValidQuorumCert
  dsimp only
  rw [List.findSome?_eq_some_iff]
  constructor
  · rintro ⟨xs, node, ys, hs, hn, hxs⟩
    rw [Option.bind_eq_some_iff] at hn
    obtain ⟨cert, hc, hm⟩ := hn
    obtain ⟨k, hk, he⟩ := Option.map_eq_some_iff.1 hm
    cases he
    refine ⟨xs, node, ys, cert, hs, fun m hm c k' hp => ?_, ⟨hc, hk⟩, rfl⟩
    have := hxs m hm
    rw [hp.1, Option.bind_some, hp.2] at this
    cases this
  · rintro ⟨xs, node, ys, cert, hs, hxs, hp, rfl⟩
    refine ⟨xs, node, ys, hs, by rw [hp.1, Option.bind_some, hp.2]; rfl, fun m hm => ?_⟩
    rw [Option.bind_eq_none_iff]
    intro c hc
    rw [Option.map_eq_none_iff]
    cases hk : certAccepted s (derivePinnedSignerPubkeys s) (quorumThreshold (peerSetSizeN s)) c with
    | none => rfl
    | some k => exact absurd ⟨hc, hk⟩ (hxs m hm c k)

/-- A certificate that passes is found, or one before it. -/
theorem findValidQuorumCert_isSome {node : DagNode} (hn : node ∈ s.nodes)
    (hp : Passes s claimType ch node cert n) : (findValidQuorumCert s claimType ch).isSome := by
  unfold findValidQuorumCert
  dsimp only
  rw [List.findSome?_isSome_iff]
  exact ⟨node, hn, by rw [hp.1, Option.bind_some, hp.2]; rfl⟩

theorem certOn_eq_some {node : DagNode} : certOn claimType ch node = some cert ↔
    node.nodeType = populationConsensusReachedNodeType claimType ∧
    decodePopulationConsensusReached node.content = some cert ∧ cert.claimHash = ch := by
  unfold certOn
  split
  · rename_i ht
    simp [Option.filter_eq_some_iff, ht]
  · rename_i ht
    simp [ht]

/-- The entries of a new certificate are from the voters that the tally counted. -/
theorem collectCertVotes_voters :
    voters CertPeerVote.peerSubstrateId (collectCertVotes s claimType ch round pins) =
      tallied s claimType ch round pins := by
  refine Eq.trans ?_ voters_firstOfEach
  rw [voters, voters, collectCertVotes, List.map_map]
  rfl

theorem mem_collectCertVotes {e : CertPeerVote}
    (h : e ∈ collectCertVotes s claimType ch round pins) :
    ∃ v ∈ votesOn s claimType ch round, voteVerifies s pins v ∧ v.certEntry = e := by
  obtain ⟨v, hv, rfl⟩ := List.mem_map.1 h
  obtain ⟨h1, h2⟩ := List.mem_filter.1 (mem_of_mem_firstOfEach hv)
  exact ⟨v, h1, h2, rfl⟩

end

end Myco.Consensus
