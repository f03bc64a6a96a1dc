import Myco.Consensus.Frame
import Myco.Federation.Handlers

/-!
# The handlers of consensus

`handle_federation_propose_population_claim`, `handle_federation_submit_peer_vote`,
`handle_federation_query_consensus`, and `recheck_quorum_and_maybe_emit_cert`, with which the first
two end (`substrate/src/consensus.rs`).

`recheck_cases` lists what a recheck does: it finds the claim certified, or mints no certificate, or
mints one of the votes that the tally counts (`Mints`).
-/

namespace Myco.Consensus

open Myco.Lib Myco.Canonical Myco.Schema Myco.Substrate Myco.Federation

variable {env : Env}

/-! ### The code -/

def recheckQuorumAndMaybeEmitCert (claimType : String) (claimHash : Hash32) (claimPayload : Bytes)
    (roundId : UInt64) : Handler env (Option NodeHash) := do
  let s ← get
  match findValidQuorumCert s claimType claimHash with
  | some (h, _) => pure (some h)
  | none =>
    let pins := derivePinnedSignerPubkeys s
    let n := peerSetSizeN s
    let threshold := quorumThreshold n
    let (distinct, total) := tallyVotes s claimType claimHash roundId pins
    let cycle := s.cycleCounter
    let _ ← emitSubstrateEvent (byzantineThresholdCheckNodeType claimType)
      (encodeByzantineThresholdCheck claimType n (fTolerated n) total distinct roundId cycle)
    if distinct < threshold then
      let _ ← emitSubstrateEvent (populationConsensusPendingNodeType claimType)
        (encodePopulationConsensusPending claimType claimHash roundId distinct threshold cycle)
      pure none
    else
      let s ← get
      let certVotes := collectCertVotes s claimType claimHash roundId pins
      let h ← emitSubstrateEvent (populationConsensusReachedNodeType claimType)
        (encodePopulationConsensusReached
          (certOf claimType claimHash claimPayload roundId n (fTolerated n) certVotes) cycle)
      pure (some h)

def requireClaimType (env : Env) (request : Message) : Except SubstrateError String :=
  match string? request.payload "claim_type" with
  | none | some "" => .error (.protocol "consensus: claim_type must be a non-empty String")
  | some s =>
    if (PopulationClaimClass.fromClaimType s).isNone then
      .error (.protocol s!"consensus: unknown claim_type {
        env.debugText s} (must be one of the three §6.5.b classes: peer_revocation / universal_junk_classification / cross_substrate_aggregate_metric)")
    else .ok s

def requireBlob (request : Message) (field : String) (error : String) :
    Except SubstrateError Bytes :=
  match blob? request.payload field with
  | some b => .ok b
  | none => .error (.protocol error)

def raise {α : Type} : Except SubstrateError α → Handler env α
  | .ok a => pure a
  | .error e => throw e

/-- `dag.tip().map(|t| t.0).unwrap_or([0u8; 32])` -/
def dagTipOrZero (s : ServerState env) : Hash32 := s.ledger.tip.getD (.replicate 0)

/-- This substrate's own vote in the next round, signed. -/
def ownVote (s : ServerState env) (claimType : String) (claimPayload : Bytes) :
    DecodedPopulationVote :=
  let ch := claimHash env claimPayload
  let roundId := nextRoundId s claimType ch
  { claimType, claimPayload, roundId
    claimHash := ch
    voterSubstrateId := ownId s
    voterSignature := env.signatures.sign s.substrateSigningSeed
      (buildPopulationVoteSigningMessage claimType ch (ownId s) roundId (dagTipOrZero s))
    peerDagTipAtVote := dagTipOrZero s }

def emitVote (vote : DecodedPopulationVote) : Handler env NodeHash := do
  let s ← get
  emitSubstrateEvent (populationVoteNodeType vote.claimType)
    (encodePopulationVote vote s.cycleCounter)

/-- The part of an answer that both voting handlers give. -/
def tallyEntries (s : ServerState env) (vote : DecodedPopulationVote) (certHash : Option NodeHash) :
    List (String × Value) :=
  let n := peerSetSizeN s
  let votes := (tallyVotes s vote.claimType vote.claimHash vote.roundId
    (derivePinnedSignerPubkeys s)).1
  [("claim_type", .string vote.claimType), ("claim_hash", hashValue vote.claimHash),
    ("round_id", .uint vote.roundId), ("votes_received", .uint (UInt64.ofNat votes)),
    ("quorum_needed", .uint (UInt64.ofNat (quorumThreshold n))),
    ("peer_set_size_n", .uint (UInt64.ofNat n))] ++
    entryIf "consensus_reached_event_hash" hashValue certHash

def recheckVote (vote : DecodedPopulationVote) : Handler env (Option NodeHash) :=
  recheckQuorumAndMaybeEmitCert vote.claimType vote.claimHash vote.claimPayload vote.roundId

def handleFederationProposePopulationClaim (request : Message) : Handler env (Option Message) := do
  let claimType ← raise (requireClaimType env request)
  let claimPayload ← raise (requireBlob request "claim_payload"
    "federation_propose_population_claim: claim_payload must be Bytes")
  let s ← get
  let vote := ownVote s claimType claimPayload
  let _ ← emitVote vote
  let certHash ← recheckVote vote
  let s ← get
  pure (respond "federation_propose_population_claim_response" request
    (("floor_active", .bool (consensusFloorActive s)) :: tallyEntries s vote certHash))

def rejectVoteResponse (request : Message) (reason : String) : Option Message :=
  respond "federation_submit_peer_vote_response" request
    [("accepted", .bool false), ("reason", .string reason)]

/-- The vote that the request carries, or why it is refused. -/
def admitVote (s : ServerState env) (voteBytes : Bytes) : Except String DecodedPopulationVote :=
  match decodePopulationVote voteBytes with
  | none => .error "vote_event_bytes is not a well-formed population_vote body"
  | some vote =>
    match OrdMap.get vote.voterSubstrateId (derivePinnedSignerPubkeys s) with
    | none => .error "voter has no §10 FED_HELLO pinned signer_pubkey (unpinned / legacy peer); vote cannot be verified"
    | some voterPubkey =>
      if verifyPopulationVote env vote voterPubkey then .ok vote
      else .error "peer vote signature failed Ed25519 verification against pinned signer_pubkey"

/-- Records a vote, unless one of this voter's on the triple is recorded. -/
def recordVote (vote : DecodedPopulationVote) : Handler env PUnit := do
  let s ← get
  if !populationVoteAlreadyRecorded s vote.claimType vote.claimHash vote.roundId
      vote.voterSubstrateId then
    let _ ← emitVote vote

def handleFederationSubmitPeerVote (request : Message) : Handler env (Option Message) := do
  let voteBytes ← raise (requireBlob request "vote_event_bytes"
    "federation_submit_peer_vote: vote_event_bytes must be Bytes")
  let s ← get
  match admitVote s voteBytes with
  | .error reason => pure (rejectVoteResponse request reason)
  | .ok vote =>
    recordVote vote
    let certHash ← recheckVote vote
    let s ← get
    pure (respond "federation_submit_peer_vote_response" request
      (("accepted", .bool true) :: tallyEntries s vote certHash))

def handleFederationQueryConsensus (request : Message) : Handler env (Option Message) := do
  let claimType ← raise (requireClaimType env request)
  let claimPayload ← raise (requireBlob request "claim_payload"
    "federation_query_consensus: claim_payload must be Bytes")
  let s ← get
  let ch := claimHash env claimPayload
  let roundId := saturatingSub (nextRoundId s claimType ch) 1
  let (votes, _) := tallyVotes s claimType ch roundId (derivePinnedSignerPubkeys s)
  let n := peerSetSizeN s
  let cert := findValidQuorumCert s claimType ch
  let status := if cert.isSome then "reached" else "pending"
  pure (respond "federation_query_consensus_response" request
    ([("claim_type", .string claimType), ("claim_hash", hashValue ch), ("status", .string status),
      ("round_id", .uint roundId), ("votes_received", .uint (UInt64.ofNat votes)),
      ("quorum_needed", .uint (UInt64.ofNat (quorumThreshold n))),
      ("peer_set_size_n", .uint (UInt64.ofNat n)),
      ("floor_active", .bool (consensusFloorActive s))] ++
      entryIf "consensus_reached_event_hash" hashValue (cert.map Prod.fst) ++
      entryIf "cert_verified_voters" (fun k : Nat => .uint (UInt64.ofNat k)) (cert.map Prod.snd)))

/-- The gate before a population action: `none` to proceed, the evidence to refuse. -/
def checkC49PopulationActionAllowed (s : ServerState env) (claimClass : PopulationClaimClass)
    (claimHash : Hash32) : Option String :=
  if !consensusFloorActive s then none
  else if (findValidQuorumCert s claimClass.claimType claimHash).isSome then none
  else some s!"C49_consensus_floor_bypass: population action class={
    claimClass.claimType} attempted while the consensus floor is ACTIVE (peer_count={
    s.federation.peerCount} ≥ {
    consensusFloorMinPeers}) WITHOUT a valid ≥2/3 population_consensus_reached:{
    claimClass.claimType} certificate for claim_hash={hexFirst8Bytes claimHash}"

/-! ### What a recheck does -/

section

variable {s s' : ServerState env} {claimType : String} {ch : Hash32} {payload : Bytes}
  {round : UInt64}

theorem plain_byzantineThresholdCheck {n : DagNode}
    (h : n.nodeType = byzantineThresholdCheckNodeType claimType) : Plain n :=
  plain_of_startsWith (p := "byzantine_threshold_check:") (h ▸ startsWith_append)
    (by unfold PlainPrefix; decide)

theorem plain_consensusPending {n : DagNode}
    (h : n.nodeType = populationConsensusPendingNodeType claimType) : Plain n :=
  plain_of_startsWith (p := "population_consensus_pending:") (h ▸ startsWith_append)
    (by unfold PlainPrefix; decide)

/-- `c` is the certificate of the votes that the tally counts. -/
structure Mints (s : ServerState env) (claimType : String) (claimHash : Hash32)
    (claimPayload : Bytes) (roundId : UInt64) (c : DagNode) : Prop where
  quorum : quorumThreshold (peerSetSizeN s) ≤
    (tallied s claimType claimHash roundId (derivePinnedSignerPubkeys s)).card
  nodeType : c.nodeType = populationConsensusReachedNodeType claimType
  cert : decodePopulationConsensusReached c.content =
    some (certOf claimType claimHash claimPayload roundId (peerSetSizeN s)
      (fTolerated (peerSetSizeN s))
      (collectCertVotes s claimType claimHash roundId (derivePinnedSignerPubkeys s)))

theorem pinOf_eq_none {n : DagNode} {p : String} (h : startsWith p n.nodeType)
    (hp : Apart p federationPeerPinnedPrefix) : pinOf n = none :=
  if_neg (not_startsWith h hp)

theorem Mints.pinOf_eq {c : DagNode} (h : Mints s claimType ch payload round c) : pinOf c = none :=
  pinOf_eq_none (h.nodeType ▸ startsWith_append) (p := populationConsensusReachedPrefix) (by decide)

theorem Mints.voteOf_eq {c : DagNode} (h : Mints s claimType ch payload round c) (ct : String) :
    voteOf ct c = none := by
  refine if_neg fun hv => ?_
  have hc : startsWith populationConsensusReachedPrefix c.nodeType := h.nodeType ▸ startsWith_append
  exact not_startsWith hc (q := populationVotePrefix) (by decide) (hv ▸ startsWith_append)

/-- No certificate is minted: there are too few votes, or the log does not take it. -/
def Unminted (s : ServerState env) (claimType : String) (claimHash : Hash32) (roundId : UInt64)
    (r : Except SubstrateError (Option NodeHash)) : Prop :=
  (∃ e, r = .error e) ∨ r = .ok none ∧
    (tallied s claimType claimHash roundId (derivePinnedSignerPubkeys s)).card <
      quorumThreshold (peerSetSizeN s)

theorem Unminted.ne {r : Except SubstrateError (Option NodeHash)}
    (h : Unminted s claimType ch round r) (hash : NodeHash) : r ≠ .ok (some hash) := by
  rcases h with ⟨e, rfl⟩ | ⟨rfl, -⟩
  · nofun
  · nofun

/-- The claim is certified, or no certificate is minted, or one is. -/
theorem recheck_cases {r : Except SubstrateError (Option NodeHash)}
    (h : (recheckQuorumAndMaybeEmitCert claimType ch payload round).exec s = some (r, s')) :
    s'.party = s.party ∧
    ((∃ hash k, findValidQuorumCert s claimType ch = some (hash, k) ∧ r = .ok (some hash) ∧
        s' = s) ∨
     (findValidQuorumCert s claimType ch = none ∧ ∃ ws : List DagNode, (∀ w ∈ ws, Plain w) ∧
      ((s'.nodes = s.nodes ++ ws ∧ Unminted s claimType ch round r) ∨
       ∃ c, s'.nodes = s.nodes ++ ws ++ [c] ∧ r = .ok (some c.hash) ∧
        Mints s claimType ch payload round c))) := by
  rw [recheckQuorumAndMaybeEmitCert, Prog.exec_get_bind] at h
  cases hf : findValidQuorumCert s claimType ch with
  | some x =>
    rw [hf] at h
    cases h
    exact ⟨rfl, .inl ⟨x.1, x.2, rfl, rfl, rfl⟩⟩
  | none =>
    rw [hf] at h
    dsimp only at h
    rcases Prog.exec_bind_eq_some.1 h with ⟨e, h1, rfl⟩ | ⟨_, t, h1, h2⟩
    · obtain ⟨hp, ⟨e', -, hn⟩ | ⟨n, he, -⟩⟩ := emitSubstrateEvent_cases h1
      · exact ⟨hp, .inr ⟨rfl, [], by simp, .inl ⟨by simp [hn], .inl ⟨e, rfl⟩⟩⟩⟩
      · cases he
    obtain ⟨hp, ⟨e', he, -⟩ | ⟨w, -, hn, hw, -⟩⟩ := emitSubstrateEvent_cases h1
    · cases he
    have hplain := plain_byzantineThresholdCheck hw
    have hws : ∀ x ∈ [w], Plain x := fun x hx => List.mem_singleton.1 hx ▸ hplain
    split at h2
    · -- too few votes
      rename_i hfew
      rcases Prog.exec_bind_eq_some.1 h2 with ⟨e, h3, rfl⟩ | ⟨_, u, h3, h4⟩
      · obtain ⟨hp', ⟨e', -, hn'⟩ | ⟨n, he, -⟩⟩ := emitSubstrateEvent_cases h3
        · exact ⟨hp'.trans hp, .inr ⟨rfl, [w], hws, .inl ⟨hn'.trans hn, .inl ⟨e, rfl⟩⟩⟩⟩
        · cases he
      · obtain ⟨hp', ⟨e', he, -⟩ | ⟨x, -, hn', hx, -⟩⟩ := emitSubstrateEvent_cases h3
        · cases he
        cases h4
        refine ⟨hp'.trans hp, .inr ⟨rfl, [w, x], ?_, .inl ⟨?_, .inr ⟨rfl, hfew⟩⟩⟩⟩
        · simp only [List.mem_cons, List.not_mem_nil, or_false]
          rintro y (rfl | rfl)
          · exact hplain
          · exact plain_consensusPending hx
        · rw [hn', hn, List.append_assoc]
          rfl
    · -- a quorum
      rename_i hq
      rw [Prog.exec_get_bind] at h2
      rcases Prog.exec_bind_eq_some.1 h2 with ⟨e, h3, rfl⟩ | ⟨hash, u, h3, h4⟩
      · obtain ⟨hp', ⟨e', -, hn'⟩ | ⟨n, he, -⟩⟩ := emitSubstrateEvent_cases h3
        · exact ⟨hp'.trans hp, .inr ⟨rfl, [w], hws, .inl ⟨hn'.trans hn, .inl ⟨e, rfl⟩⟩⟩⟩
        · cases he
      · obtain ⟨hp', ⟨e', he, -⟩ | ⟨c, he, hn', hc, hcont, hmem⟩⟩ := emitSubstrateEvent_cases h3
        · cases he
        cases he
        cases h4
        refine ⟨hp'.trans hp, .inr ⟨rfl, [w], hws, .inr ⟨c, hn'.trans (by rw [hn]), rfl, ?_⟩⟩⟩
        refine ⟨Nat.not_lt.1 hq, hc, ?_⟩
        rw [hcont, decode_encodePopulationConsensusReached hmem,
          collectCertVotes_append_of_none hn hp fun x hx => (hws x hx).vote _]

end

/-! ### What a vote does -/

/-- The node of a vote. -/
structure Casts (vote : DecodedPopulationVote) (n : DagNode) : Prop where
  nodeType : n.nodeType = populationVoteNodeType vote.claimType
  content : decodePopulationVote n.content = some vote

/-- The vote is in the log, or one that stands in its way was; a proposer's own vote nothing stands
in the way of. -/
structure Records (s : ServerState env) (vote : DecodedPopulationVote) (u : ServerState env) :
    Prop where
  party : u.party = s.party
  nodes : populationVoteAlreadyRecorded s vote.claimType vote.claimHash vote.roundId
      vote.voterSubstrateId = true ∧ u.nodes = s.nodes ∨
    ∃ n, u.nodes = s.nodes ++ [n] ∧ Casts vote n
  once : populationVoteAlreadyRecorded s vote.claimType vote.claimHash vote.roundId
      vote.voterSubstrateId = true → u.nodes = s.nodes ∨
    vote.claimHash = claimHash env vote.claimPayload

/-- The vote is recorded and the claim rechecked, or recording it fails. -/
inductive Voting (s : ServerState env) (vote : DecodedPopulationVote) :
    Except SubstrateError (Option NodeHash) → ServerState env → Prop
  | failed {e : SubstrateError} {t : ServerState env} :
      t.party = s.party → t.nodes = s.nodes → Voting s vote (.error e) t
  | rechecked {u t : ServerState env} {r : Except SubstrateError (Option NodeHash)} :
      Records s vote u → (recheckVote vote).exec u = some (r, t) → Voting s vote r t

/-- The vote of a proposal that is well formed. -/
def proposedVote (s : ServerState env) (request : Message) : Option DecodedPopulationVote := do
  let claimType ← (requireClaimType env request).toOption
  let claimPayload ← blob? request.payload "claim_payload"
  some (ownVote s claimType claimPayload)

/-- The vote of a submission that is admitted. -/
def submittedVote (s : ServerState env) (request : Message) : Option DecodedPopulationVote := do
  let voteBytes ← blob? request.payload "vote_event_bytes"
  (admitVote s voteBytes).toOption

section

variable {s t : ServerState env} {request : Message} {vote : DecodedPopulationVote}

theorem emitVote_cases {r : Except SubstrateError NodeHash}
    (h : (emitVote vote).exec s = some (r, t)) : t.party = s.party ∧
    ((∃ e, r = .error e ∧ t.nodes = s.nodes) ∨
     ∃ n : DagNode, r = .ok n.hash ∧ t.nodes = s.nodes ++ [n] ∧ Casts vote n) := by
  rw [emitVote, Prog.exec_get_bind] at h
  obtain ⟨hp, h | ⟨n, hr, hn, ht, hc, hmem⟩⟩ := emitSubstrateEvent_cases h
  · exact ⟨hp, .inl h⟩
  · exact ⟨hp, .inr ⟨n, hr, hn, ht, by rw [hc, decode_encodePopulationVote hmem]⟩⟩

theorem recordVote_cases {r : Except SubstrateError PUnit}
    (h : (recordVote vote).exec s = some (r, t)) :
    ((∃ e, r = .error e) ∧ t.party = s.party ∧ t.nodes = s.nodes) ∨
    (r = .ok ⟨⟩ ∧ Records s vote t) := by
  rw [recordVote, Prog.exec_get_bind] at h
  split at h
  · rename_i hnew
    rcases Prog.exec_bind_eq_some.1 h with ⟨e, h1, rfl⟩ | ⟨_, u, h1, h2⟩
    · obtain ⟨hp, ⟨e', -, hn⟩ | ⟨n, he, -⟩⟩ := emitVote_cases h1
      · exact .inl ⟨⟨e, rfl⟩, hp, hn⟩
      · cases he
    · obtain ⟨hp, ⟨e', he, -⟩ | ⟨n, -, hn, hc⟩⟩ := emitVote_cases h1
      · cases he
      · cases h2
        refine .inr ⟨rfl, hp, .inr ⟨n, hn, hc⟩, fun hrec => ?_⟩
        rw [hrec] at hnew
        cases hnew
  · rename_i hrec
    cases h
    exact .inr ⟨rfl, rfl, .inl ⟨by simpa using hrec, rfl⟩, fun _ => .inl rfl⟩

theorem exec_raise {α : Type} {x : Except SubstrateError α} :
    (raise x : Handler env α).exec s = some (x, s) := by
  cases x <;> rfl

theorem propose_cases {r : Except SubstrateError (Option Message)}
    (h : (handleFederationProposePopulationClaim request).exec s = some (r, t)) :
    ((∃ e, r = .error e) ∧ t = s ∧ proposedVote s request = none) ∨
    ∃ vote rc, proposedVote s request = some vote ∧ Voting s vote rc t ∧
      r = rc.map fun certHash => respond "federation_propose_population_claim_response" request
        (("floor_active", .bool (consensusFloorActive t)) :: tallyEntries t vote certHash) := by
  rw [handleFederationProposePopulationClaim, Prog.exec_bind, exec_raise, Option.bind_some] at h
  unfold proposedVote
  cases htype : requireClaimType env request with
  | error e =>
    rw [htype] at h
    cases h
    exact .inl ⟨⟨e, rfl⟩, rfl, rfl⟩
  | ok claimType =>
    rw [htype] at h
    dsimp only at h
    rw [Prog.exec_bind, exec_raise, Option.bind_some, requireBlob] at h
    cases hblob : blob? request.payload "claim_payload" with
    | none =>
      rw [hblob] at h
      cases h
      exact .inl ⟨⟨_, rfl⟩, rfl, rfl⟩
    | some payload =>
      rw [hblob] at h
      dsimp only at h
      rw [Prog.exec_get_bind] at h
      refine .inr ⟨ownVote s claimType payload, ?_⟩
      rcases Prog.exec_bind_eq_some.1 h with ⟨e, h1, rfl⟩ | ⟨_, u, h1, h2⟩
      · obtain ⟨hp, ⟨e', -, hn⟩ | ⟨n, he, -⟩⟩ := emitVote_cases h1
        · exact ⟨.error e, rfl, .failed hp hn, rfl⟩
        · cases he
      · obtain ⟨hp, ⟨e', he, -⟩ | ⟨n, -, hn, hc⟩⟩ := emitVote_cases h1
        · cases he
        have hrec : Records s (ownVote s claimType payload) u :=
          ⟨hp, .inr ⟨n, hn, hc⟩, fun _ => .inr rfl⟩
        rcases Prog.exec_bind_eq_some.1 h2 with ⟨e, h3, rfl⟩ | ⟨certHash, v, h3, h4⟩
        · exact ⟨.error e, rfl, .rechecked hrec h3, rfl⟩
        · cases h4
          exact ⟨.ok certHash, rfl, .rechecked hrec h3, rfl⟩

theorem submit_cases {r : Except SubstrateError (Option Message)}
    (h : (handleFederationSubmitPeerVote request).exec s = some (r, t)) :
    (((∃ e, r = .error e) ∨ ∃ reason, r = .ok (rejectVoteResponse request reason)) ∧ t = s ∧
      submittedVote s request = none) ∨
    ∃ vote rc, submittedVote s request = some vote ∧ Voting s vote rc t ∧
      r = rc.map fun certHash => respond "federation_submit_peer_vote_response" request
        (("accepted", .bool true) :: tallyEntries t vote certHash) := by
  rw [handleFederationSubmitPeerVote, Prog.exec_bind, exec_raise, Option.bind_some,
    requireBlob] at h
  unfold submittedVote
  cases hblob : blob? request.payload "vote_event_bytes" with
  | none =>
    rw [hblob] at h
    cases h
    exact .inl ⟨.inl ⟨_, rfl⟩, rfl, rfl⟩
  | some bytes =>
    rw [hblob] at h
    dsimp only at h
    rw [Prog.exec_get_bind] at h
    rw [Option.bind_eq_bind, Option.bind_some]
    cases hvote : admitVote s bytes with
    | error reason =>
      rw [hvote] at h
      cases h
      exact .inl ⟨.inr ⟨reason, rfl⟩, rfl, rfl⟩
    | ok vote =>
      rw [hvote] at h
      refine .inr ⟨vote, ?_⟩
      rcases Prog.exec_bind_eq_some.1 h with ⟨e, h1, rfl⟩ | ⟨_, u, h1, h2⟩
      · rcases recordVote_cases h1 with ⟨-, hp, hn⟩ | ⟨he, -⟩
        · exact ⟨.error e, rfl, .failed hp hn, rfl⟩
        · cases he
      · rcases recordVote_cases h1 with ⟨⟨e, he⟩, -⟩ | ⟨-, hrec⟩
        · cases he
        rcases Prog.exec_bind_eq_some.1 h2 with ⟨e, h3, rfl⟩ | ⟨certHash, v, h3, h4⟩
        · exact ⟨.error e, rfl, .rechecked hrec h3, rfl⟩
        · cases h4
          exact ⟨.ok certHash, rfl, .rechecked hrec h3, rfl⟩

end

end Myco.Consensus
