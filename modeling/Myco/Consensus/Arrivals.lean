import Myco.Consensus.Counted
import Myco.Federation.Private

/-!
# How votes arrive

A vote that a peer submits is recorded under its own type, and counts. One that comes in a batch of
events is wrapped, in a node that neither the tally nor the gate reads (`SamePrivate`), and the same
goes for certificates. So the two ways come to the same only where recording would have changed
nothing either (`pulled_counts_iff`).
-/

namespace Myco.Consensus

open Myco.Lib Myco.Canonical Myco.Schema Myco.Substrate Myco.Federation

variable {env : Env}

/-- A pull in whose batch this event came. -/
def PulledWith (s : ServerState env) (ev : EventForFederation) (t : ServerState env) : Prop :=
  ∃ wire request id batch r, bytes32? request.payload "peer_substrate_id" = some id ∧
    pulledBatch s id wire request = .ok batch ∧ ev ∈ batch.events ∧
    (handleFederationPullEventsFromPeer wire request).exec s = some (r, t)

/-- The tally, in every round, and the gate find the same for a claim. -/
def CountAlike (claimType : String) (ch : Hash32) (t u : ServerState env) : Prop :=
  (∀ round, tallyVotes t claimType ch round (derivePinnedSignerPubkeys t) =
    tallyVotes u claimType ch round (derivePinnedSignerPubkeys u)) ∧
  findValidQuorumCert t claimType ch = findValidQuorumCert u claimType ch

/-- What the gate makes of a certificate. -/
def gate (s : ServerState env) (cert : DecodedQuorumCert) : Option Nat :=
  certAccepted s (derivePinnedSignerPubkeys s) (quorumThreshold (peerSetSizeN s)) cert

/-- The voters are too few for a certificate. -/
def TooFew (s : ServerState env) (vote : DecodedPopulationVote) : Prop :=
  (tallied s vote.claimType vote.claimHash vote.roundId (derivePinnedSignerPubkeys s)).card <
    quorumThreshold (peerSetSizeN s)

/-- The certificate of the votes that are recorded, with the payload of this one. -/
def certWith (s : ServerState env) (vote : DecodedPopulationVote) : DecodedQuorumCert :=
  certOf vote.claimType vote.claimHash vote.claimPayload vote.roundId (peerSetSizeN s)
    (fTolerated (peerSetSizeN s)) (collectCertVotes s vote.claimType vote.claimHash vote.roundId
      (derivePinnedSignerPubkeys s))

/-- A vote of this voter on the triple is recorded, and nothing is left to certify: the claim is
certified, or the voters are too few, or the gate would not take their certificate. -/
structure CountedAlready (s : ServerState env) (vote : DecodedPopulationVote) : Prop where
  recorded : populationVoteAlreadyRecorded s vote.claimType vote.claimHash vote.roundId
    vote.voterSubstrateId
  certified : (findValidQuorumCert s vote.claimType vote.claimHash).isSome ∨ TooFew s vote ∨
    gate s (certWith s vote) = none

section

variable {s t u : ServerState env} {request : Message} {vote : DecodedPopulationVote}
  {claimType : String} {ch : Hash32} {ws : List DagNode}

theorem CountAlike.symm (h : CountAlike claimType ch t u) : CountAlike claimType ch u t :=
  ⟨fun round => (h.1 round).symm, h.2.symm⟩

theorem CountAlike.trans {v : ServerState env} (h : CountAlike claimType ch s t)
    (h' : CountAlike claimType ch t v) : CountAlike claimType ch s v :=
  ⟨fun round => (h.1 round).trans (h'.1 round), h.2.trans h'.2⟩

/-- Nodes that are neither pins nor votes leave the tally as it is. -/
theorem tallies_append (hn : t.nodes = s.nodes ++ ws) (hp : t.party = s.party)
    (hpin : ∀ w ∈ ws, pinOf w = none) (hvote : ∀ w ∈ ws, voteOf claimType w = none)
    (round : UInt64) : tallyVotes t claimType ch round (derivePinnedSignerPubkeys t) =
      tallyVotes s claimType ch round (derivePinnedSignerPubkeys s) := by
  rw [derivePins_append hn hp hpin, tallyVotes, tallyVotes, tallied_append_of_none hn hp hvote,
    votesOn_append_of_none hn hvote]

theorem countAlike_append (hn : t.nodes = s.nodes ++ ws) (hp : t.party = s.party)
    (h : ∀ w ∈ ws, Plain w) : CountAlike claimType ch s t :=
  CountAlike.symm ⟨tallies_append hn hp (fun w hw => (h w hw).pin) fun w hw => (h w hw).vote _,
    certs_append hn hp h⟩

/-- A pull leaves the counts as they are. -/
theorem PulledWith.countAlike {ev : EventForFederation} (h : PulledWith s ev t) :
    CountAlike claimType ch s t := by
  obtain ⟨wire, request, id, batch, r, -, -, -, hpull⟩ := h
  obtain ⟨hlog, hparty, -⟩ := extends_pull s r t hpull
  obtain ⟨ws, hn, hws⟩ := hlog.exists_forall
  exact countAlike_append hn hparty fun w hw => (hws w hw).elim fun _ hl => hl.kind.plain

/-- Where nothing is certified, the gate finds a certificate that is appended if it takes it. -/
theorem find_append_cert {c : DagNode} {cert : DecodedQuorumCert}
    (hn : t.nodes = s.nodes ++ ws ++ [c]) (hp : t.party = s.party) (hws : ∀ w ∈ ws, Plain w)
    (hpin : pinOf c = none) (hcert : certOn claimType ch c = some cert)
    (hnone : findValidQuorumCert s claimType ch = none) :
    findValidQuorumCert t claimType ch = (gate s cert).map fun n => (c.hash, n) := by
  have hpins : ∀ w ∈ ws ++ [c], pinOf w = none := by
    intro w hw
    rcases List.mem_append.1 hw with hw | hw
    · exact (hws w hw).pin
    · rw [List.mem_singleton.1 hw]
      exact hpin
  have hn' : t.nodes = s.nodes ++ (ws ++ [c]) := by rw [hn, List.append_assoc]
  have hplain : ws.findSome? (fun node => (certOn claimType ch node).bind fun cert =>
      (certAccepted s (derivePinnedSignerPubkeys s) (quorumThreshold (peerSetSizeN s)) cert).map
        fun n => (node.hash, n)) = none := by
    refine List.findSome?_eq_none_iff.2 fun w hw => ?_
    rw [(hws w hw).cert]
    rfl
  unfold findValidQuorumCert at hnone ⊢
  dsimp only at hnone ⊢
  rw [derivePins_append hn' hp hpins, peerSetSizeN_eq hp, hn]
  simp only [certAccepted_eq hp]
  rw [List.findSome?_append, List.findSome?_append, hnone, hplain, Option.none_or, Option.none_or,
    List.findSome?_singleton, hcert]
  rfl

/-- What a recheck leaves as it was. -/
theorem recheck_countAlike_iff {rc : Option NodeHash}
    (h : (recheckVote vote).exec s = some (.ok rc, t)) :
    CountAlike vote.claimType vote.claimHash s t ↔
      (findValidQuorumCert s vote.claimType vote.claimHash).isSome ∨ TooFew s vote ∨
        gate s (certWith s vote) = none := by
  obtain ⟨hp, ⟨hash, k, hf, -, rfl⟩ | ⟨hnone, ws, hws, ⟨hn, hun⟩ | ⟨c, hn, -, hm⟩⟩⟩ :=
    recheck_cases h
  · exact ⟨fun _ => .inl (by rw [hf]; rfl), fun _ => ⟨fun _ => rfl, rfl⟩⟩
  · rcases hun with ⟨e, he⟩ | ⟨-, hfew⟩
    · cases he
    · exact ⟨fun _ => .inr (.inl hfew), fun _ => countAlike_append hn hp hws⟩
  · have hfind : findValidQuorumCert t vote.claimType vote.claimHash =
        (gate s (certWith s vote)).map fun n => (c.hash, n) :=
      find_append_cert hn hp hws hm.pinOf_eq (certOn_eq_some.2 ⟨hm.nodeType, hm.cert, rfl⟩) hnone
    have hn' : t.nodes = s.nodes ++ (ws ++ [c]) := by rw [hn, List.append_assoc]
    have hquiet : ∀ w ∈ ws ++ [c], pinOf w = none ∧ voteOf vote.claimType w = none := by
      intro w hw
      rcases List.mem_append.1 hw with hw | hw
      · exact ⟨(hws w hw).pin, (hws w hw).vote _⟩
      · rw [List.mem_singleton.1 hw]
        exact ⟨hm.pinOf_eq, hm.voteOf_eq _⟩
    constructor
    · rintro ⟨-, hsame⟩
      rw [hnone, hfind] at hsame
      exact .inr (.inr (Option.map_eq_none_iff.1 hsame.symm))
    · rintro (hsome | hfew | hgate)
      · rw [hnone] at hsome
        cases hsome
      · exact absurd hm.quorum (Nat.not_le.2 hfew)
      · refine CountAlike.symm ⟨tallies_append hn' hp (fun w hw => (hquiet w hw).1)
          fun w hw => (hquiet w hw).2, ?_⟩
        rw [hfind, hgate, hnone]
        rfl

/-! ### A vote that is submitted -/

theorem submit_answered {r : Option Message} (hv : submittedVote s request = some vote)
    (h : (handleFederationSubmitPeerVote request).exec s = some (.ok r, t)) :
    ∃ u rc, (recordVote vote : Handler env PUnit).exec s = some (.ok ⟨⟩, u) ∧
      (recheckVote vote).exec u = some (.ok rc, t) := by
  obtain ⟨bytes, hblob, hadmit⟩ := Option.bind_eq_some_iff.1 hv
  rw [handleFederationSubmitPeerVote, Prog.exec_bind, exec_raise, Option.bind_some,
    requireBlob, hblob] at h
  dsimp only at h
  rw [Prog.exec_get_bind, toOption_eq_some.1 hadmit] at h
  dsimp only at h
  rcases Prog.exec_bind_eq_some.1 h with ⟨e, -, he⟩ | ⟨⟨⟩, u, h1, h2⟩
  · cases he
  rcases Prog.exec_bind_eq_some.1 h2 with ⟨e, -, he⟩ | ⟨rc, v, h3, h4⟩
  · cases he
  · cases h4
    exact ⟨u, rc, h1, h3⟩

theorem votesOn_casts {n : DagNode} (hn : t.nodes = s.nodes ++ [n]) (hc : Casts vote n) :
    votesOn t vote.claimType vote.claimHash vote.roundId =
      votesOn s vote.claimType vote.claimHash vote.roundId ++ [vote] := by
  have hvote : voteOf vote.claimType n = some vote := by
    rw [voteOf, if_pos hc.nodeType, hc.content]
  rw [votesOn_append hn, List.filterMap_cons_some hvote]
  simp

/-- A submission leaves the counts as they are where the vote is counted already. -/
theorem submit_countAlike_iff {r : Option Message} (hv : submittedVote s request = some vote)
    (h : (handleFederationSubmitPeerVote request).exec s = some (.ok r, t)) :
    CountAlike vote.claimType vote.claimHash s t ↔ CountedAlready s vote := by
  obtain ⟨u, rc, h1, h2⟩ := submit_answered hv h
  rw [recordVote, Prog.exec_get_bind] at h1
  by_cases hrec : populationVoteAlreadyRecorded s vote.claimType vote.claimHash vote.roundId
      vote.voterSubstrateId
  · rw [hrec] at h1
    cases h1
    rw [recheck_countAlike_iff h2]
    exact ⟨fun hcert => ⟨hrec, hcert⟩, fun hcert => hcert.certified⟩
  · refine ⟨fun hsame => ?_, fun hc => absurd hc.recorded hrec⟩
    rw [Bool.not_eq_true] at hrec
    rw [hrec] at h1
    rcases Prog.exec_bind_eq_some.1 h1 with ⟨e, -, he⟩ | ⟨hash, v, h3, h4⟩
    · cases he
    cases h4
    obtain ⟨-, ⟨e, he, -⟩ | ⟨n, -, hn, hc⟩⟩ := emitVote_cases h3
    · cases he
    obtain ⟨hp, ns, hns, hquiet⟩ := recheck_logged h2
    have hlen := congrArg Prod.snd (hsame.1 vote.roundId)
    have hu : votesOn t vote.claimType vote.claimHash vote.roundId =
        votesOn u vote.claimType vote.claimHash vote.roundId :=
      votesOn_append_of_none hns fun w hw => (hquiet w hw).2 vote.claimType
    simp only [tallyVotes, hu, votesOn_casts hn hc, List.length_append,
      List.length_singleton] at hlen
    omega

/-! ### A certificate that is recorded -/

/-- Recording a certificate leaves the counts as they are where one is found before it, or the gate
does not take it. -/
theorem record_cert_countAlike_iff {cert : DecodedQuorumCert} {cycle : UInt64} {h : NodeHash}
    (he : (emitSubstrateEvent (populationConsensusReachedNodeType cert.claimType)
      (encodePopulationConsensusReached cert cycle)).exec s = some (.ok h, t)) :
    CountAlike cert.claimType cert.claimHash s t ↔
      (findValidQuorumCert s cert.claimType cert.claimHash).isSome ∨ gate s cert = none := by
  obtain ⟨hp, ⟨e, he, -⟩ | ⟨c, -, hn, ht, hc, hmem⟩⟩ := emitSubstrateEvent_cases he
  · cases he
  have hcert : certOn cert.claimType cert.claimHash c = some cert :=
    certOn_eq_some.2 ⟨ht, by rw [hc, decode_encodePopulationConsensusReached hmem], rfl⟩
  have hstart : startsWith populationConsensusReachedPrefix c.nodeType := ht ▸ startsWith_append
  have hpin : pinOf c = none := pinOf_eq_none hstart (by decide)
  have hvote : ∀ w ∈ [c], voteOf cert.claimType w = none := by
    intro w hw
    rw [List.mem_singleton.1 hw]
    refine if_neg fun hv => not_startsWith hstart (q := populationVotePrefix) (by decide) ?_
    rw [hv]
    exact startsWith_append
  have htally : ∀ round, tallyVotes t cert.claimType cert.claimHash round
      (derivePinnedSignerPubkeys t) = tallyVotes s cert.claimType cert.claimHash round
      (derivePinnedSignerPubkeys s) :=
    tallies_append hn hp (fun w hw => List.mem_singleton.1 hw ▸ hpin) hvote
  cases hfind : findValidQuorumCert s cert.claimType cert.claimHash with
  | some x =>
    have hkept := findValidQuorumCert_mono hn hp (fun w hw => List.mem_singleton.1 hw ▸ hpin) hfind
    exact ⟨fun _ => .inl rfl, fun _ => ⟨fun round => (htally round).symm, by rw [hfind, hkept]⟩⟩
  | none =>
    have hlog : t.nodes = s.nodes ++ [] ++ [c] := by rw [hn, List.append_nil]
    have hnew := find_append_cert hlog hp (by simp) hpin hcert hfind
    constructor
    · rintro ⟨-, hsame⟩
      rw [hfind, hnew] at hsame
      exact .inr (Option.map_eq_none_iff.1 hsame.symm)
    · rintro (hsome | hgate)
      · cases hsome
      · refine ⟨fun round => (htally round).symm, ?_⟩
        rw [hfind, hnew, hgate]
        rfl

/-- Pulling a vote comes to the same as submitting it, and pulling a certificate to the same as
recording it, exactly where submitting or recording it changes nothing that is counted. -/
theorem pulled_counts_iff :
    (∀ ev request r u vote bytes, PulledWith s ev t →
      blob? request.payload "vote_event_bytes" = some bytes →
      ev.nodeType = populationVoteNodeType vote.claimType → ev.contentCanonicalBytes = bytes →
      submittedVote s request = some vote →
      (handleFederationSubmitPeerVote request).exec s = some (.ok r, u) →
      (CountAlike vote.claimType vote.claimHash t u ↔ CountedAlready s vote)) ∧
    ∀ ev cert cycle h u, PulledWith s ev t →
      ev.nodeType = populationConsensusReachedNodeType cert.claimType →
      ev.contentCanonicalBytes = encodePopulationConsensusReached cert cycle →
      (emitSubstrateEvent ev.nodeType ev.contentCanonicalBytes).exec s = some (.ok h, u) →
      (CountAlike cert.claimType cert.claimHash t u ↔
        (findValidQuorumCert s cert.claimType cert.claimHash).isSome ∨ gate s cert = none) := by
  constructor
  · intro ev request r u vote bytes hpull _ _ _ hv hsubmit
    rw [← submit_countAlike_iff hv hsubmit]
    exact ⟨fun h => hpull.countAlike.trans h, fun h => hpull.countAlike.symm.trans h⟩
  · intro ev cert cycle h u hpull ht hc he
    rw [ht, hc] at he
    rw [← record_cert_countAlike_iff he]
    exact ⟨fun h => hpull.countAlike.trans h, fun h => hpull.countAlike.symm.trans h⟩

end

/-! ### A vote in a batch -/

section

/-- The peer's vote, as an event of the peer's log. -/
def voteEvent : EventForFederation :=
  ⟨[], populationVoteNodeType "peer_revocation", 0, encodePopulationVote (voteSigned 2) 0⟩

/-- A certificate that nobody has signed. -/
def emptyCert : DecodedQuorumCert := certOf "peer_revocation" emptyClaim [] 0 2 0 []

def certEvent : EventForFederation :=
  ⟨[], populationConsensusReachedNodeType "peer_revocation", 0,
    encodePopulationConsensusReached emptyCert 0⟩

def pulling (events : List EventForFederation) : Handler twoVotesEnv (Option Message) :=
  handleFederationPullEventsFromPeer (answering events) (pullFrom peerId)

theorem pulledWith_of_pulling {s t : ServerState twoVotesEnv} {events : List EventForFederation}
    {ev : EventForFederation} {r : Except SubstrateError (Option Message)} (hev : ev ∈ events)
    (hb : pulledBatch s peerId (answering events) (pullFrom peerId) = .ok ⟨events, true⟩)
    (h : (pulling events).exec s = some (r, t)) : PulledWith s ev t :=
  ⟨answering events, pullFrom peerId, peerId, ⟨events, true⟩, r, by decide, hb, hev, h⟩

theorem pulled_counts_vote_event : ∃ ds r x h, ∃ s t u v : ServerState twoVotesEnv,
    Run (stateOf twoVotesEnv []) ds s ∧ (pulling [voteEvent, certEvent]).exec s = some (r, t) ∧
    Step s (.call (.submit (submission 2)) (.ok x)) u ∧
    (emitSubstrateEvent certEvent.nodeType certEvent.contentCanonicalBytes).exec s =
      some (.ok h, v) ∧
    (CountAlike "peer_revocation" emptyClaim t u ↔ CountedAlready s (voteSigned 2)) ∧
    (CountAlike "peer_revocation" emptyClaim t v ↔
      (findValidQuorumCert s "peer_revocation" emptyClaim).isSome ∨ gate s emptyCert = none) := by
  have h : (runCalls (stateOf twoVotesEnv []) [listening, greeting (helloUnder oldKey 0)]).any
      (fun p => (submittedVote p.2 (submission 2) = some (voteSigned 2) : Bool) &&
        ((pulledBatch p.2 peerId (answering [voteEvent, certEvent]) (pullFrom peerId)).toOption =
          some ⟨[voteEvent, certEvent], true⟩ : Bool) &&
        ((pulling [voteEvent, certEvent]).exec p.2).isSome &&
        ((Call.submit (submission 2)).run.exec p.2).any (fun q => q.1.toOption.isSome) &&
        ((emitSubstrateEvent certEvent.nodeType certEvent.contentCanonicalBytes :
          Handler twoVotesEnv NodeHash).exec p.2).any fun q => q.1.toOption.isSome) = true := by
    decide +kernel
  obtain ⟨⟨ds, s⟩, hrun, hs⟩ := (Option.any_eq_true _ _).1 h
  simp only [Bool.and_eq_true, decide_eq_true_eq] at hs
  obtain ⟨⟨⟨⟨hvote, hbatch⟩, hpull⟩, hsubmit⟩, hemit⟩ := hs
  obtain ⟨⟨r, t⟩, ht⟩ := Option.isSome_iff_exists.1 hpull
  obtain ⟨⟨a, u⟩, hu, ha⟩ := (Option.any_eq_true _ _).1 hsubmit
  obtain ⟨⟨b, v⟩, hv, hb⟩ := (Option.any_eq_true _ _).1 hemit
  obtain ⟨x, hx⟩ := Option.isSome_iff_exists.1 ha
  obtain ⟨hash, hhash⟩ := Option.isSome_iff_exists.1 hb
  obtain rfl : a = .ok x := toOption_eq_some.1 hx
  obtain rfl : b = .ok hash := toOption_eq_some.1 hhash
  have hpulled : ∀ ev ∈ [voteEvent, certEvent], PulledWith s ev t := fun ev hev =>
    pulledWith_of_pulling hev (toOption_eq_some.1 hbatch) ht
  exact ⟨ds, r, x, hash, s, t, u, v, run_of_runCalls hrun, ht, .call hu, hv,
    pulled_counts_iff.1 voteEvent (submission 2) x u (voteSigned 2) _ (hpulled _ (by simp)) rfl rfl
      rfl hvote hu,
    pulled_counts_iff.2 certEvent emptyCert 0 hash v (hpulled _ (by simp)) rfl rfl hv⟩

/-- The vote of a pinned peer counts when it is submitted, and does not when it is pulled. -/
theorem pulled_vote_not_counted : ∃ ds r x, ∃ s t u : ServerState twoVotesEnv,
    Run (stateOf twoVotesEnv []) ds s ∧ PulledWith s voteEvent t ∧
    (pulling [voteEvent]).exec s = some (r, t) ∧
    Step s (.call (.submit (submission 2)) (.ok x)) u ∧
    submittedVote s (submission 2) = some (voteSigned 2) ∧
    tallyVotes t "peer_revocation" emptyClaim 0 (derivePinnedSignerPubkeys t) = (0, 0) ∧
    tallyVotes u "peer_revocation" emptyClaim 0 (derivePinnedSignerPubkeys u) = (1, 1) ∧
    ¬ CountAlike "peer_revocation" emptyClaim t u := by
  have h : (runCalls (stateOf twoVotesEnv []) [listening, greeting (helloUnder oldKey 0)]).any
      (fun p => (submittedVote p.2 (submission 2) = some (voteSigned 2) : Bool) &&
        ((pulledBatch p.2 peerId (answering [voteEvent]) (pullFrom peerId)).toOption =
          some ⟨[voteEvent], true⟩ : Bool) &&
        ((pulling [voteEvent]).exec p.2).any (fun q => tallyVotes q.2 "peer_revocation" emptyClaim 0
          (derivePinnedSignerPubkeys q.2) = (0, 0)) &&
        ((Call.submit (submission 2)).run.exec p.2).any (fun q => q.1.toOption.isSome &&
          tallyVotes q.2 "peer_revocation" emptyClaim 0 (derivePinnedSignerPubkeys q.2) = (1, 1))) =
      true := by
    decide +kernel
  obtain ⟨⟨ds, s⟩, hrun, hs⟩ := (Option.any_eq_true _ _).1 h
  simp only [Bool.and_eq_true, decide_eq_true_eq] at hs
  obtain ⟨⟨⟨hvote, hbatch⟩, hpull⟩, hsubmit⟩ := hs
  obtain ⟨⟨r, t⟩, ht, hnone⟩ := (Option.any_eq_true _ _).1 hpull
  obtain ⟨⟨a, u⟩, hu, hone⟩ := (Option.any_eq_true _ _).1 hsubmit
  simp only [Bool.and_eq_true, decide_eq_true_eq] at hnone hone
  obtain ⟨x, hx⟩ := Option.isSome_iff_exists.1 hone.1
  obtain rfl : a = .ok x := toOption_eq_some.1 hx
  refine ⟨ds, r, x, s, t, u, run_of_runCalls hrun, pulledWith_of_pulling (List.mem_singleton.2 rfl)
    (toOption_eq_some.1 hbatch) ht, ht, .call hu, hvote, hnone, hone.2, fun hsame => ?_⟩
  have := hsame.1 0
  rw [hnone, hone.2] at this
  cases this

end

end Myco.Consensus
