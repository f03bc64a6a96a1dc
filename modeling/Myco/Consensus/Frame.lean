import Myco.Consensus.Floor
import Myco.Lib.Index

/-!
# What counting depends on

The pins, the tally and the gate look at the pins, the votes and the certificates in the log, and at
the substrate as a party to its federation. So they are what they were after nodes of other kinds
have been appended, and a certificate that is accepted stays accepted while the party is the
same and nobody is pinned (`findValidQuorumCert_mono`).
-/

namespace Myco.Consensus

open Myco.Lib Myco.Canonical Myco.Schema Myco.Substrate Myco.Federation

variable {env : Env} {s t : ServerState env} {claimType : String} {ch : Hash32} {round : UInt64}
  {pins : List (Hash32 × Hash32)} {ws : List DagNode}

/-! ### The party -/

section

variable (hp : t.party = s.party)

include hp

theorem federation_eq : t.federation = s.federation := congrArg Prod.fst hp

theorem revoked_eq : t.revokedFederationPeers = s.revokedFederationPeers :=
  congrArg (fun x => x.2.1) hp

theorem ownId_eq : ownId t = ownId s := congrArg (fun x => x.2.2.1.getD (.replicate 0)) hp

theorem signingSeed_eq : t.substrateSigningSeed = s.substrateSigningSeed :=
  congrArg (fun x => x.2.2.2) hp

theorem substrateSigningPubkey_eq : substrateSigningPubkey t = substrateSigningPubkey s := by
  unfold substrateSigningPubkey
  rw [signingSeed_eq hp]

theorem peerSetSizeN_eq : peerSetSizeN t = peerSetSizeN s := by
  unfold peerSetSizeN liveNonRevoked
  rw [federation_eq hp, revoked_eq hp]

theorem resolvePubkey_eq : resolvePubkey t = resolvePubkey s := by
  funext pins id
  unfold resolvePubkey
  rw [ownId_eq hp, substrateSigningPubkey_eq hp]

theorem voteVerifies_eq : voteVerifies t = voteVerifies s := by
  funext pins v
  unfold voteVerifies
  rw [resolvePubkey_eq hp]

theorem certAccepted_eq {k : Nat} {cert : DecodedQuorumCert} :
    certAccepted t pins k cert = certAccepted s pins k cert := by
  unfold certAccepted
  rw [resolvePubkey_eq hp]

end

/-! ### The log -/

theorem pinsOf_append {revoked : List Hash32} {ns : List DagNode} (h : ∀ w ∈ ws, pinOf w = none) :
    pinsOf revoked (ns ++ ws) = pinsOf revoked ns := by
  rw [pinsOf, List.foldl_append, ← pinsOf]
  induction ws with
  | nil => rfl
  | cons w ws ih =>
    rw [List.forall_mem_cons] at h
    rw [List.foldl_cons, pinEvent, h.1]
    exact ih h.2

theorem derivePins_append (hn : t.nodes = s.nodes ++ ws) (hp : t.party = s.party)
    (h : ∀ w ∈ ws, pinOf w = none) :
    derivePinnedSignerPubkeys t = derivePinnedSignerPubkeys s := by
  rw [derivePinnedSignerPubkeys, hn, revoked_eq hp, pinsOf_append h]
  rfl

theorem claimVotes_append (hn : t.nodes = s.nodes ++ ws) : claimVotes t claimType ch =
    claimVotes s claimType ch ++ (ws.filterMap (voteOf claimType)).filter (·.claimHash = ch) := by
  rw [claimVotes, hn, List.filterMap_append, List.filter_append]
  rfl

theorem votesOn_append (hn : t.nodes = s.nodes ++ ws) : votesOn t claimType ch round =
    votesOn s claimType ch round ++
      ((ws.filterMap (voteOf claimType)).filter (·.claimHash = ch)).filter (·.roundId = round) := by
  rw [votesOn, claimVotes_append hn, List.filter_append]
  rfl

theorem votesOn_append_of_none (hn : t.nodes = s.nodes ++ ws)
    (h : ∀ w ∈ ws, voteOf claimType w = none) :
    votesOn t claimType ch round = votesOn s claimType ch round := by
  rw [votesOn_append hn, List.filterMap_eq_nil_iff.2 h]
  exact List.append_nil _

theorem tallied_append_of_none (hn : t.nodes = s.nodes ++ ws) (hp : t.party = s.party)
    (h : ∀ w ∈ ws, voteOf claimType w = none) :
    tallied t claimType ch round pins = tallied s claimType ch round pins := by
  rw [tallied, votesOn_append_of_none hn h, voteVerifies_eq hp]
  rfl

theorem collectCertVotes_append_of_none (hn : t.nodes = s.nodes ++ ws) (hp : t.party = s.party)
    (h : ∀ w ∈ ws, voteOf claimType w = none) :
    collectCertVotes t claimType ch round pins = collectCertVotes s claimType ch round pins := by
  rw [collectCertVotes, votesOn_append_of_none hn h, voteVerifies_eq hp]
  rfl

theorem passes_append (hn : t.nodes = s.nodes ++ ws) (hp : t.party = s.party)
    (h : ∀ w ∈ ws, pinOf w = none) {node : DagNode} {cert : DecodedQuorumCert} {k : Nat} :
    Passes t claimType ch node cert k ↔ Passes s claimType ch node cert k := by
  unfold Passes
  rw [derivePins_append hn hp h, peerSetSizeN_eq hp, certAccepted_eq hp]

/-- What the gate has found it still finds. -/
theorem findValidQuorumCert_mono (hn : t.nodes = s.nodes ++ ws) (hp : t.party = s.party)
    (h : ∀ w ∈ ws, pinOf w = none) {x : NodeHash × Nat}
    (hf : findValidQuorumCert s claimType ch = some x) :
    findValidQuorumCert t claimType ch = some x := by
  obtain ⟨xs, node, ys, cert, hs, hxs, hpass, he⟩ := findValidQuorumCert_eq_some.1 hf
  refine findValidQuorumCert_eq_some.2 ⟨xs, node, ys ++ ws, cert, ?_, ?_, ?_, he⟩
  · rw [hn, hs, List.append_assoc, List.cons_append]
  · exact fun m hm c k hc => hxs m hm c k ((passes_append hn hp h).1 hc)
  · exact (passes_append hn hp h).2 hpass

end Myco.Consensus
