import Myco.Consensus.Counted

/-!
# Minted certificates

A certificate that is minted carries the payload of the vote that completed the quorum, and no
signature covers it. Where it hashes to the claim (`PayloadMatches`), the gate accepts the
certificate at once, and goes on accepting it, so that none is minted twice
(`minted_certificates`). Where it does not, the gate accepts no certificate, and the next vote mints
another.
-/

namespace Myco.Consensus

open Myco.Lib Myco.Canonical Myco.Schema Myco.Substrate Myco.Federation

variable {env : Env}

/-! ### Payloads -/

/-- The verified voters once the vote is in. -/
def votersWith (s : ServerState env) (vote : DecodedPopulationVote) : Finset Hash32 :=
  let voters := tallied s vote.claimType vote.claimHash vote.roundId (derivePinnedSignerPubkeys s)
  if populationVoteAlreadyRecorded s vote.claimType vote.claimHash vote.roundId
      vote.voterSubstrateId then voters
  else insert vote.voterSubstrateId voters

/-- A vote that completes a quorum for an uncertified claim carries the payload of the claim. -/
def PayloadMatches (s : ServerState env) (e : Event) : Prop :=
  ∀ vote, e.ballot s = some vote → findValidQuorumCert s vote.claimType vote.claimHash = none →
    quorumThreshold (peerSetSizeN s) ≤ (votersWith s vote).card →
    claimHash env vote.claimPayload = vote.claimHash

/-- A step whose vote, if it completes a quorum, carries the payload of the claim. -/
def MatchedStep (s : ServerState env) (e : Event) (t : ServerState env) : Prop :=
  Step s e t ∧ PayloadMatches s e

/-- The peers, the pins and the revoked stay as they are. -/
structure Event.Steady (s : ServerState env) (e : Event) : Prop where
  federation : (e.change s).federation = s.federation
  pinned : (e.change s).pinned = []
  revoked : e.revoked s = s.revokedFederationPeers

def SteadyStep (s : ServerState env) (e : Event) (t : ServerState env) : Prop :=
  MatchedStep s e t ∧ e.Steady s

/-- A certificate that the answer names is one that the gate accepts. -/
def AnswerCertified (s : ServerState env) (answer : Answer) : Prop :=
  ∀ m claimType ch hash, answer = .ok (some m) →
    string? m.payload "claim_type" = some claimType → bytes32? m.payload "claim_hash" = some ch →
    bytes32? m.payload "consensus_reached_event_hash" = some hash →
    ∃ n, findValidQuorumCert s claimType ch = some (hash, n)

/-- The certificates for the claim among these nodes. -/
def certsOn (claimType : String) (ch : Hash32) (ns : List DagNode) : Nat :=
  ns.countP fun n => (certOn claimType ch n).isSome

section

variable {s t u : ServerState env} {e : Event} {es : List Event} {ws ns : List DagNode}
  {c : DagNode} {claimType : String} {ch : Hash32} {payload : Bytes} {round : UInt64}
  {vote : DecodedPopulationVote} {r : Except SubstrateError (Option NodeHash)}

/-! ### What a minted certificate passes -/

theorem not_passes_of_none (h : findValidQuorumCert s claimType ch = none) {n : DagNode}
    (hn : n ∈ s.nodes) {cert : DecodedQuorumCert} {k : Nat} : ¬ Passes s claimType ch n cert k := by
  intro hp
  have := findValidQuorumCert_isSome hn hp
  rw [h] at this
  cases this

/-- The gate accepts a certificate that was just minted with the payload of the claim. -/
theorem find_minted (hf : Filed s) (hm : Mints s claimType ch payload round c)
    (hnone : findValidQuorumCert s claimType ch = none) (hpay : claimHash env payload = ch)
    (hws : ∀ w ∈ ws, Plain w) (hn : t.nodes = s.nodes ++ ws ++ [c]) (hp : t.party = s.party) :
    findValidQuorumCert t claimType ch =
      some (c.hash, (tallied s claimType ch round (derivePinnedSignerPubkeys s)).card) := by
  have hpins : ∀ w ∈ ws ++ [c], pinOf w = none := by
    intro w hw
    rcases List.mem_append.1 hw with hw | hw
    · exact (hws w hw).pin
    · rw [List.mem_singleton.1 hw]
      exact hm.pinOf_eq
  have hn' : t.nodes = s.nodes ++ (ws ++ [c]) := by rw [hn, List.append_assoc]
  refine findValidQuorumCert_eq_some.2 ⟨s.nodes ++ ws, c, [], _, hn, fun m hmem cert k hpass => ?_,
    ⟨certOn_eq_some.2 ⟨hm.nodeType, hm.cert, rfl⟩, ?_⟩, rfl⟩
  · rw [passes_append hn' hp hpins] at hpass
    rcases List.mem_append.1 hmem with hmem | hmem
    · exact not_passes_of_none hnone hmem hpass
    · have := hpass.1
      rw [(hws m hmem).cert] at this
      cases this
  · rw [derivePins_append hn' hp hpins, peerSetSizeN_eq hp, certAccepted_eq hp]
    have hsize : (UInt64.ofNat (peerSetSizeN s)).toNat ≤ peerSetSizeN s := by
      rw [UInt64.toNat_ofNat']
      exact Nat.mod_le _ _
    refine certAccepted_eq_some.2 ⟨hpay, ?_, hm.quorum, ?_⟩
    · exact (quorumThreshold_mono hsize).trans hm.quorum
    · rw [verifiedVoters_certOf hf]

/-- A minted certificate is for the claim that was rechecked. -/
theorem Mints.eq_of_certOn {claimType' : String} {ch' : Hash32}
    (hm : Mints s claimType ch payload round c) (h : (certOn claimType' ch' c).isSome) :
    claimType' = claimType ∧ ch' = ch := by
  obtain ⟨cert, hcert⟩ := Option.isSome_iff_exists.1 h
  obtain ⟨htype, hdec, hch⟩ := certOn_eq_some.1 hcert
  rw [hm.nodeType] at htype
  rw [hm.cert] at hdec
  cases hdec
  exact ⟨((String.append_right_inj _).1 htype).symm, hch.symm⟩

/-! ### What a vote mints -/

/-- What voting appends, as far as certificates go. -/
structure Mintings (s : ServerState env) (ns : List DagNode) (t : ServerState env) : Prop where
  nodes : t.nodes = s.nodes ++ ns
  party : t.party = s.party
  pins : ∀ n ∈ ns, pinOf n = none
  certs : ∀ claimType ch, certsOn claimType ch ns = 0 ∨
    certsOn claimType ch ns = 1 ∧ findValidQuorumCert s claimType ch = none ∧
      (findValidQuorumCert t claimType ch).isSome

theorem certsOn_eq_zero (h : ∀ n ∈ ns, ∀ ct ch, certOn ct ch n = none) :
    certsOn claimType ch ns = 0 := by
  refine List.countP_eq_zero.2 fun n hn hc => ?_
  rw [h n hn] at hc
  cases hc

theorem mintings_of_none (hn : t.nodes = s.nodes ++ ns) (hp : t.party = s.party)
    (hpins : ∀ n ∈ ns, pinOf n = none) (hcerts : ∀ n ∈ ns, ∀ ct ch, certOn ct ch n = none) :
    Mintings s ns t :=
  ⟨hn, hp, hpins, fun _ _ => .inl (certsOn_eq_zero hcerts)⟩

theorem Casts.certOn_eq (h : Casts vote c) (ct : String) (ch : Hash32) : certOn ct ch c = none := by
  refine if_neg fun hc => ?_
  have hv : startsWith populationVotePrefix c.nodeType := h.nodeType ▸ startsWith_append
  exact not_startsWith hv (q := populationConsensusReachedPrefix) (by decide)
    (hc ▸ startsWith_append)

theorem Records.filed (h : Records s vote u) (hf : Filed s) : Filed u := by
  rcases h.nodes with ⟨-, hu⟩ | ⟨n, hu, hcast⟩
  · exact fun m hm => hf m (hu ▸ hm)
  · intro m hm ct v hv
    rw [hu] at hm
    rcases List.mem_append.1 hm with hm | hm
    · exact hf m hm ct v hv
    · rw [List.mem_singleton.1 hm] at hv
      obtain ⟨rfl, rfl⟩ := hcast.eq_of_voteOf hv
      rfl

/-- What recording appends. -/
theorem Records.appended (h : Records s vote u) : ∃ ns, u.nodes = s.nodes ++ ns ∧
    (∀ n ∈ ns, pinOf n = none) ∧ ∀ n ∈ ns, ∀ ct ch, certOn ct ch n = none := by
  rcases h.nodes with ⟨-, hu⟩ | ⟨n, hu, hcast⟩
  · exact ⟨[], by simp [hu], by simp, by simp⟩
  · exact ⟨[n], hu, fun m hm => List.mem_singleton.1 hm ▸ hcast.pinOf_eq,
      fun m hm => List.mem_singleton.1 hm ▸ hcast.certOn_eq⟩

/-- Recording a vote adds nobody but its voter to the tally. -/
theorem Records.tallied_subset (h : Records s vote u)
    (hpay : vote.claimHash ≠ claimHash env vote.claimPayload) :
    tallied u vote.claimType vote.claimHash vote.roundId (derivePinnedSignerPubkeys u) ⊆
      votersWith s vote := by
  obtain ⟨ns, hu, hpins, -⟩ := h.appended
  rw [derivePins_append hu h.party hpins, tallied, voteVerifies_eq h.party]
  unfold votersWith
  rcases h.nodes with ⟨hold, hu⟩ | ⟨n, hu, hcast⟩
  · have hu' : u.nodes = s.nodes ++ [] := by rw [hu, List.append_nil]
    rw [if_pos hold, votesOn_append_of_none hu' (by simp)]
    exact Finset.Subset.refl _
  · intro id hid
    obtain ⟨v, hv, rfl⟩ := mem_voters.1 hid
    obtain ⟨hv, hver⟩ := List.mem_filter.1 hv
    rw [votesOn_append hu] at hv
    have hcases : v = vote ∨ v.voterSubstrateId ∈ tallied s vote.claimType vote.claimHash
        vote.roundId (derivePinnedSignerPubkeys s) := by
      rcases List.mem_append.1 hv with hv | hv
      · exact .inr (mem_voters.2 ⟨v, List.mem_filter.2 ⟨hv, hver⟩, rfl⟩)
      · obtain ⟨m, hm, hvote⟩ := List.mem_filterMap.1 (List.mem_of_mem_filter
          (List.mem_of_mem_filter hv))
        rw [List.mem_singleton.1 hm] at hvote
        exact .inl (hcast.eq_of_voteOf hvote).1
    by_cases hold : populationVoteAlreadyRecorded s vote.claimType vote.claimHash vote.roundId
        vote.voterSubstrateId = true
    · rw [if_pos hold]
      rcases hcases with rfl | hmem
      · rcases h.once hold with hsame | hown
        · rw [hsame, List.self_eq_append_right] at hu
          cases hu
        · exact absurd hown hpay
      · exact hmem
    · rw [if_neg hold]
      rcases hcases with rfl | hmem
      · exact Finset.mem_insert_self _ _
      · exact Finset.mem_insert_of_mem hmem

theorem find_of_records (h : Records s vote u)
    (hu : findValidQuorumCert u claimType ch = none) : findValidQuorumCert s claimType ch = none := by
  obtain ⟨ns, hn, hpins, -⟩ := h.appended
  cases hs : findValidQuorumCert s claimType ch with
  | none => rfl
  | some x =>
    rw [findValidQuorumCert_mono hn h.party hpins hs] at hu
    cases hu

/-- A vote whose payload is that of the claim, should it complete a quorum, mints what the gate
accepts. -/
theorem Voting.mints (h : Voting s vote r t) (hf : Filed s)
    (hmatch : findValidQuorumCert s vote.claimType vote.claimHash = none →
      quorumThreshold (peerSetSizeN s) ≤ (votersWith s vote).card →
      claimHash env vote.claimPayload = vote.claimHash) :
    (∃ ns, Mintings s ns t) ∧ ∀ hash, r = .ok (some hash) →
      ∃ n, findValidQuorumCert t vote.claimType vote.claimHash = some (hash, n) := by
  cases h with
  | failed hp hn => exact ⟨⟨[], mintings_of_none (by simp [hn]) hp (by simp) (by simp)⟩, nofun⟩
  | @rechecked u _ _ hrec hre =>
    obtain ⟨ns, hu, hpins, hcerts⟩ := hrec.appended
    obtain ⟨hp, ⟨hash, k, hfind, rfl, rfl⟩ | ⟨hnone, ws, hws, hcases⟩⟩ := recheck_cases hre
    · refine ⟨⟨ns, mintings_of_none hu hrec.party hpins hcerts⟩, fun hash' he => ?_⟩
      cases he
      exact ⟨k, hfind⟩
    have hpinsw : ∀ n ∈ ns ++ ws, pinOf n = none := fun n hn =>
      (List.mem_append.1 hn).elim (hpins n) fun hw => (hws n hw).pin
    have hcertsw : ∀ n ∈ ns ++ ws, ∀ ct ch, certOn ct ch n = none := fun n hn =>
      (List.mem_append.1 hn).elim (hcerts n) fun hw => (hws n hw).cert
    rcases hcases with ⟨hn, hr⟩ | ⟨c, hn, rfl, hmint⟩
    · refine ⟨⟨ns ++ ws, mintings_of_none ?_ (hp.trans hrec.party) hpinsw hcertsw⟩,
        fun hash he => absurd he (hr.ne hash)⟩
      rw [hn, hu, List.append_assoc]
    · -- a certificate was minted
      have hsnone := find_of_records hrec hnone
      have hpay : claimHash env vote.claimPayload = vote.claimHash := by
        by_contra hne
        refine hne (hmatch hsnone ?_)
        rw [← peerSetSizeN_eq hrec.party]
        exact hmint.quorum.trans (Finset.card_le_card (hrec.tallied_subset (Ne.symm hne)))
      have hfind := find_minted (hrec.filed hf) hmint hnone hpay hws hn hp
      refine ⟨⟨ns ++ ws ++ [c], ?_, hp.trans hrec.party, fun n hm => ?_, fun ct ch => ?_⟩,
        fun hash he => ?_⟩
      · rw [hn, hu]
        simp only [List.append_assoc]
      · rcases List.mem_append.1 hm with hm | hm
        · exact hpinsw n hm
        · rw [List.mem_singleton.1 hm]
          exact hmint.pinOf_eq
      · rw [certsOn, List.countP_append, ← certsOn, certsOn_eq_zero hcertsw, Nat.zero_add]
        by_cases hc : (certOn ct ch c).isSome
        · obtain ⟨rfl, rfl⟩ := hmint.eq_of_certOn hc
          exact .inr ⟨by simp [hc], hsnone, by rw [hfind]; rfl⟩
        · exact .inl (by simp [hc])
      · cases he
        exact ⟨_, hfind⟩

/-! ### What an event mints -/

theorem ownVote_matches {request : Message} (h : proposedVote s request = some vote) :
    claimHash env vote.claimPayload = vote.claimHash := by
  obtain ⟨ct, -, h⟩ := Option.bind_eq_some_iff.1 h
  obtain ⟨b, -, h⟩ := Option.bind_eq_some_iff.1 h
  cases h
  rfl

theorem mintings_of_does (h : Does s e t) (hst : e.Steady s) (hb : e.ballot s = none) :
    ∃ ns, Mintings s ns t := by
  obtain ⟨ns, hn, hns⟩ := h.nodes
  refine ⟨ns, mintings_of_none hn ?_ (fun n hm => ?_) fun n hm => (hns n hm).cert hb⟩
  · rw [h.party, Event.party, hst.federation, hst.revoked]
    rfl
  · cases hp : pinOf n with
    | none => rfl
    | some p =>
      have := (hns n hm).pin p.1 p.2 hp
      rw [hst.pinned] at this
      cases this

theorem SteadyStep.mintings (h : SteadyStep s e t) (hf : Filed s) : ∃ ns, Mintings s ns t := by
  obtain ⟨⟨hstep, hmatch⟩, hst⟩ := h
  cases hb : e.ballot s with
  | none => exact mintings_of_does (step_does hstep) hst hb
  | some vote =>
    have hvote := hmatch vote hb
    cases hstep with
    | other => cases hb
    | @call _ c answer h =>
      cases c with
      | propose request =>
        rcases propose_cases h with ⟨-, -, hnone⟩ | ⟨vote', rc, hprop, hv, -⟩
        · rw [show proposedVote s request = some vote from hb] at hnone
          cases hnone
        · cases (show some vote' = some vote from hprop.symm.trans hb)
          exact (hv.mints hf hvote).1
      | submit request =>
        rcases submit_cases h with ⟨-, -, hnone⟩ | ⟨vote', rc, hsub, hv, -⟩
        · rw [show submittedVote s request = some vote from hb] at hnone
          cases hnone
        · cases (show some vote' = some vote from hsub.symm.trans hb)
          exact (hv.mints hf hvote).1
      | _ => cases hb

/-- What an answer says about a vote, after its first entry. -/
theorem answer_entries {first : String × Value} {certHash : Option NodeHash}
    (hfirst : first.1 = "accepted" ∨ first.1 = "floor_active") :
    let payload := OrdMap.ofList utf8 (first :: tallyEntries s vote certHash)
    string? payload "claim_type" = some vote.claimType ∧
    bytes32? payload "claim_hash" = some vote.claimHash ∧
    bytes32? payload "consensus_reached_event_hash" = certHash := by
  have hget : ∀ k, OrdMap.get k (OrdMap.ofList utf8 (first :: tallyEntries s vote certHash)) =
      OrdMap.get k (first :: tallyEntries s vote certHash).reverse := fun k =>
    OrdMap.get_ofList utf8_injective
  refine ⟨string?_eq ?_, bytes32?_eq ?_, ?_⟩
  · rw [hget]
    simp [tallyEntries, OrdMap.get_append, OrdMap.get_cons, get_entryIf]
  · rw [hget]
    simp [tallyEntries, OrdMap.get_append, OrdMap.get_cons, get_entryIf]
  · have h3 : OrdMap.get "consensus_reached_event_hash"
        (OrdMap.ofList utf8 (first :: tallyEntries s vote certHash)) = certHash.map hashValue := by
      rw [hget]
      rcases hfirst with hf | hf <;>
        simp [tallyEntries, OrdMap.get_append, OrdMap.get_cons, get_entryIf, hf]
    cases certHash with
    | none =>
      rw [bytes32?, h3]
      rfl
    | some h => exact bytes32?_eq h3

/-- The answer to a vote names a certificate that the gate accepts, if it names one. -/
theorem Voting.answerCertified {messageType : String} {request : Message} {first : String × Value}
    (hfirst : first.1 = "accepted" ∨ first.1 = "floor_active") (hv : Voting s vote r t)
    (hf : Filed s)
    (hmatch : findValidQuorumCert s vote.claimType vote.claimHash = none →
      quorumThreshold (peerSetSizeN s) ≤ (votersWith s vote).card →
      claimHash env vote.claimPayload = vote.claimHash) :
    AnswerCertified t (r.map fun certHash =>
      respond messageType request (first :: tallyEntries t vote certHash)) := by
  intro m ct ch hash hm htype hch hcert
  cases r with
  | error e => cases hm
  | ok certHash =>
    cases hm
    obtain ⟨h1, h2, h3⟩ := @answer_entries _ t vote first certHash hfirst
    cases h1.symm.trans htype
    cases h2.symm.trans hch
    exact (hv.mints hf hmatch).2 hash (congrArg Except.ok (h3.symm.trans hcert))

theorem answerCertified_reject {request : Message} {reason : String} :
    AnswerCertified t (.ok (rejectVoteResponse request reason)) := by
  intro m ct ch hash hm htype
  cases hm
  rw [string?, OrdMap.get_ofList utf8_injective] at htype
  cases htype

theorem propose_certified {request : Message} {answer : Answer} (hf : Filed s)
    (h : Step s (.call (.propose request) answer) t) : AnswerCertified t answer := by
  cases h with
  | call h =>
    rcases propose_cases h with ⟨⟨e, rfl⟩, -⟩ | ⟨vote, rc, hprop, hv, rfl⟩
    · exact nofun
    · exact hv.answerCertified (.inr rfl) hf fun _ _ => ownVote_matches hprop

theorem submit_certified {request : Message} {answer : Answer} (hf : Filed s)
    (h : MatchedStep s (.call (.submit request) answer) t) : AnswerCertified t answer := by
  obtain ⟨hstep, hmatch⟩ := h
  cases hstep with
  | call h =>
    rcases submit_cases h with ⟨⟨e, rfl⟩ | ⟨reason, rfl⟩, -⟩ | ⟨vote, rc, hsub, hv, rfl⟩
    · exact nofun
    · exact answerCertified_reject
    · exact hv.answerCertified (.inl rfl) hf (hmatch vote hsub)

/-! ### A payload that does not match -/

theorem findValidQuorumCert_eq_none
    (h : ∀ n ∈ s.nodes, ∀ cert k, ¬ Passes s claimType ch n cert k) :
    findValidQuorumCert s claimType ch = none := by
  cases hs : findValidQuorumCert s claimType ch with
  | none => rfl
  | some x =>
    obtain ⟨xs, n, ys, cert, hn, -, hpass, -⟩ := findValidQuorumCert_eq_some.1 hs
    exact absurd hpass (h n (by rw [hn]; simp) cert x.2)

/-- The gate finds nothing new where no certificate for the claim has the claim's payload. -/
theorem find_none_append (hn : t.nodes = s.nodes ++ ns) (hp : t.party = s.party)
    (hpins : ∀ n ∈ ns, pinOf n = none)
    (hbad : ∀ n ∈ ns, ∀ cert, certOn claimType ch n = some cert →
      claimHash env cert.claimPayload ≠ cert.claimHash)
    (hs : findValidQuorumCert s claimType ch = none) : findValidQuorumCert t claimType ch = none := by
  refine findValidQuorumCert_eq_none fun n hmem cert k hpass => ?_
  rw [hn] at hmem
  rcases List.mem_append.1 hmem with hmem | hmem
  · exact not_passes_of_none hs hmem ((passes_append hn hp hpins).1 hpass)
  · exact hbad n hmem cert hpass.1 (certAccepted_eq_some.1 hpass.2).1

/-- A verified vote that is recorded counts. -/
theorem Records.subset_tallied (h : Records s vote u) {pk : Hash32}
    (hother : vote.voterSubstrateId ≠ ownId s)
    (hpin : OrdMap.get vote.voterSubstrateId (derivePinnedSignerPubkeys s) = some pk)
    (hver : verifyPopulationVote env vote pk = true) :
    votersWith s vote ⊆
      tallied u vote.claimType vote.claimHash vote.roundId (derivePinnedSignerPubkeys u) := by
  obtain ⟨ns, hu, hpins, -⟩ := h.appended
  have hold : tallied s vote.claimType vote.claimHash vote.roundId (derivePinnedSignerPubkeys s) ⊆
      tallied u vote.claimType vote.claimHash vote.roundId (derivePinnedSignerPubkeys u) := by
    rw [derivePins_append hu h.party hpins]
    intro id hid
    obtain ⟨v, hv, rfl⟩ := mem_voters.1 hid
    obtain ⟨hv, hvv⟩ := List.mem_filter.1 hv
    refine mem_voters.2 ⟨v, List.mem_filter.2 ⟨votesOn_subset hu hv, ?_⟩, rfl⟩
    rw [voteVerifies_eq h.party]
    exact hvv
  unfold votersWith
  dsimp only
  split
  · exact hold
  · rename_i hnew
    refine Finset.insert_subset ?_ hold
    rcases h.nodes with ⟨hrec, -⟩ | ⟨n, hun, hcast⟩
    · exact absurd hrec hnew
    · refine counted_of_mem (hcast.mem_votesOn (by rw [hun]; simp)) ?_ ?_ hver
      · rwa [ownId_eq h.party]
      · rw [derivePins_append hu h.party hpins]
        exact hpin

/-- A vote that completes a quorum with a payload that is not the claim's mints what the gate does
not accept. -/
theorem Voting.mints_unaccepted {certHash : Option NodeHash} (h : Voting s vote (.ok certHash) t)
    (hnone : findValidQuorumCert s vote.claimType vote.claimHash = none)
    (hpay : vote.claimHash ≠ claimHash env vote.claimPayload) {pk : Hash32}
    (hquorum : quorumThreshold (peerSetSizeN s) ≤ (votersWith s vote).card)
    (hother : vote.voterSubstrateId ≠ ownId s)
    (hpin : OrdMap.get vote.voterSubstrateId (derivePinnedSignerPubkeys s) = some pk)
    (hver : verifyPopulationVote env vote pk = true) :
    certHash.isSome ∧ findValidQuorumCert t vote.claimType vote.claimHash = none := by
  cases h with
  | @rechecked u _ _ hrec hre =>
    obtain ⟨ns, hu, hpins, hcerts⟩ := hrec.appended
    have hunone : findValidQuorumCert u vote.claimType vote.claimHash = none :=
      find_none_append hu hrec.party hpins (fun n hn cert hc => by
        rw [hcerts n hn] at hc
        cases hc) hnone
    have hcard := Finset.card_le_card (hrec.subset_tallied hother hpin hver)
    obtain ⟨hp, ⟨hash, k, hfind, -⟩ | ⟨-, ws, hws, ⟨-, hfew⟩ | ⟨c, hn, hr, hmint⟩⟩⟩ :=
      recheck_cases hre
    · rw [hunone] at hfind
      cases hfind
    · rcases hfew with ⟨e, he⟩ | ⟨-, hlt⟩
      · cases he
      · rw [peerSetSizeN_eq hrec.party] at hlt
        omega
    · cases hr
      refine ⟨rfl, find_none_append (hn.trans (List.append_assoc _ _ _)) hp (fun n hm => ?_)
        (fun n hm cert hc => ?_) hunone⟩
      · rcases List.mem_append.1 hm with hm | hm
        · exact (hws n hm).pin
        · rw [List.mem_singleton.1 hm]
          exact hmint.pinOf_eq
      · rcases List.mem_append.1 hm with hm | hm
        · rw [(hws n hm).cert] at hc
          cases hc
        · rw [List.mem_singleton.1 hm] at hc
          have hdec := hmint.cert.symm.trans (certOn_eq_some.1 hc).2.1
          cases hdec
          exact Ne.symm hpay

/-- A submission is answered with a certificate that the gate accepts, just if its payload, should it
complete a quorum, is that of the claim. -/
theorem submit_certified_iff {s : ServerState env} {ds : List Event} {request : Message}
    {x : Option Message} (hs : Fresh s) (hu : Run s ds u)
    (h : Step u (.call (.submit request) (.ok x)) t) :
    AnswerCertified t (.ok x) ↔ PayloadMatches u (.call (.submit request) (.ok x)) := by
  constructor
  · intro hcert vote hb hnone hquorum
    by_contra hpay
    cases h with
    | call h =>
      have hsub : submittedVote u request = some vote := hb
      rcases submit_cases h with ⟨-, -, hn⟩ | ⟨vote', rc, hsub', hv, hr⟩
      · rw [hn] at hsub
        cases hsub
      · cases hsub'.symm.trans hsub
        cases rc with
        | error e => cases hr
        | ok certHash =>
          unfold submittedVote at hsub
          obtain ⟨bytes, -, hvote⟩ := Option.bind_eq_some_iff.1 hsub
          obtain ⟨-, pk, hpin, hver⟩ := admitVote_eq_ok.1 (toOption_eq_some.1 hvote)
          obtain ⟨hsome, htnone⟩ := hv.mints_unaccepted hnone (Ne.symm hpay) hquorum
            (ne_ownId_of_pin hs hu hpin) hpin hver
          obtain ⟨hash, rfl⟩ := Option.isSome_iff_exists.1 hsome
          cases hr
          obtain ⟨h1, h2, h3⟩ :=
            @answer_entries _ t vote ("accepted", .bool true) (some hash) (.inl rfl)
          obtain ⟨n, hfind⟩ := hcert _ _ _ hash rfl h1 h2 h3
          rw [htnone] at hfind
          cases hfind
  · exact fun hmatch => submit_certified (filed_of_run hs hu) ⟨h, hmatch⟩

/-! ### At most one -/

/-- Steady steps mint one certificate for a claim at most. -/
theorem certsOn_of_steady (hf : Filed u) (h : Path SteadyStep u es t) :
    certsOn claimType ch (t.nodes.drop u.nodes.length) ≤ 1 := by
  let I (v : ServerState env) : Prop := Filed v ∧ ∃ ns, v.nodes = u.nodes ++ ns ∧
    (certsOn claimType ch ns = 0 ∨
      certsOn claimType ch ns = 1 ∧ (findValidQuorumCert v claimType ch).isSome)
  have hI : I t := by
    refine h.keeps (fun v e w hstep hv => ?_) ⟨hf, [], by simp, .inl rfl⟩
    obtain ⟨hfv, ns, hn, hcount⟩ := hv
    obtain ⟨ms, hm⟩ := hstep.mintings hfv
    refine ⟨hfv.step hstep.1.1, ns ++ ms, by rw [hm.nodes, hn, List.append_assoc], ?_⟩
    have hsum : certsOn claimType ch (ns ++ ms) =
        certsOn claimType ch ns + certsOn claimType ch ms :=
      List.countP_append
    have hkept : (findValidQuorumCert v claimType ch).isSome →
        (findValidQuorumCert w claimType ch).isSome := by
      intro hsome
      obtain ⟨x, hx⟩ := Option.isSome_iff_exists.1 hsome
      rw [findValidQuorumCert_mono hm.nodes hm.party hm.pins hx]
      rfl
    rcases hm.certs claimType ch with hms | ⟨hms, hnone, hsome⟩
    · rcases hcount with hns | ⟨hns, hfind⟩
      · exact .inl (by omega)
      · exact .inr ⟨by omega, hkept hfind⟩
    · rcases hcount with hns | ⟨hns, hfind⟩
      · exact .inr ⟨by omega, hsome⟩
      · rw [hnone] at hfind
        cases hfind
  obtain ⟨-, ns, hn, hcount⟩ := hI
  rw [hn, List.drop_left]
  omega

end

/-- After any run, a proposal is answered with a certificate that the gate accepts, if with one, and a
submission just if its payload, should it complete a quorum, is that of the claim. While such votes
are all that is submitted, and the peers, the pins and the revoked stay as they are, one certificate
is minted for a claim at most. -/
theorem minted_certificates {s u : ServerState env} {ds : List Event} (hs : Fresh s)
    (hu : Run s ds u) :
    (∀ request answer t, Step u (.call (.propose request) answer) t → AnswerCertified t answer) ∧
    (∀ request x t, Step u (.call (.submit request) (.ok x)) t →
      (AnswerCertified t (.ok x) ↔ PayloadMatches u (.call (.submit request) (.ok x)))) ∧
    ∀ es t, Path SteadyStep u es t → ∀ claimType ch,
      certsOn claimType ch (t.nodes.drop u.nodes.length) ≤ 1 := by
  have hf : Filed u := filed_of_run hs hu
  exact ⟨fun _ _ _ h => propose_certified hf h, fun _ _ _ h => submit_certified_iff hs hu h,
    fun _ _ h _ _ => certsOn_of_steady hf h⟩

/-! ### A payload that nobody signed -/

section

/-- Somebody connects, says this hello and is gone. -/
def passing (hello : Message) : Call :=
  .poll ⟨⟨[("a:1", 0)], none⟩,
      ⟨fun _ => ⟨.ok (some hello), .ok ()⟩, fun _ => ⟨.error "reset", .ok ()⟩⟩⟩
    ⟨"federation_poll", 2, []⟩

/-- The peer's vote on the empty payload, submitted with another one. -/
def forged : DecodedPopulationVote := { voteSigned 2 with claimPayload := [1] }

def forgedSubmission : Message :=
  ⟨"federation_submit_peer_vote", 3,
    [("vote_event_bytes", .bytes (encodePopulationVote forged 0))]⟩

/-- Calls after which a peer is pinned and not connected. -/
def visited : List Call := [listening, passing (helloUnder oldKey 0)]

theorem minted_certificates_visited : ∃ ds, ∃ u : ServerState twoVotesEnv,
    Run (stateOf twoVotesEnv []) ds u ∧
    ((∀ request answer t, Step u (.call (.propose request) answer) t → AnswerCertified t answer) ∧
    (∀ request x t, Step u (.call (.submit request) (.ok x)) t →
      (AnswerCertified t (.ok x) ↔ PayloadMatches u (.call (.submit request) (.ok x)))) ∧
    ∀ es t, Path SteadyStep u es t → ∀ claimType ch,
      certsOn claimType ch (t.nodes.drop u.nodes.length) ≤ 1) := by
  have h : (runCalls (stateOf twoVotesEnv []) visited).isSome = true := by decide +kernel
  obtain ⟨⟨ds, u⟩, hrun⟩ := Option.isSome_iff_exists.1 h
  have hu := run_of_runCalls hrun
  exact ⟨ds, u, hu, minted_certificates fresh_stateOf hu⟩

def answered : Answer → Bool
  | .ok _ => true
  | .error _ => false

/-- A vote that is submitted twice with another payload than its claim's is answered with a
certificate that the gate does not accept, and mints two. -/
theorem forged_payload_minted_twice : ∃ ds x answer, ∃ u v w : ServerState twoVotesEnv,
    Run (stateOf twoVotesEnv []) ds u ∧
    Step u (.call (.submit forgedSubmission) (.ok x)) v ∧ ¬ AnswerCertified v (.ok x) ∧
    Step v (.call (.submit forgedSubmission) answer) w ∧
    w.party = u.party ∧ derivePinnedSignerPubkeys w = derivePinnedSignerPubkeys u ∧
    certsOn "peer_revocation" emptyClaim (w.nodes.drop u.nodes.length) = 2 := by
  have h : (runCalls (stateOf twoVotesEnv []) visited).any (fun p =>
      (submittedVote p.2 forgedSubmission = some forged : Bool) &&
        ((findValidQuorumCert p.2 "peer_revocation" emptyClaim = none : Bool) &&
          ((quorumThreshold (peerSetSizeN p.2) ≤ (votersWith p.2 forged).card : Bool) &&
            ((Call.submit forgedSubmission).run.exec p.2).any fun q => answered q.1 &&
              ((Call.submit forgedSubmission).run.exec q.2).any fun r =>
                certsOn "peer_revocation" emptyClaim (r.2.nodes.drop p.2.nodes.length) = 2))) =
      true := by
    decide +kernel
  obtain ⟨⟨ds, u⟩, hrun, hstart⟩ := (Option.any_eq_true _ _).1 h
  rw [Bool.and_eq_true, Bool.and_eq_true, Bool.and_eq_true] at hstart
  obtain ⟨hsub, hnone, hquorum, hfirst⟩ := hstart
  obtain ⟨⟨answer, v⟩, hv, hsecond⟩ := (Option.any_eq_true _ _).1 hfirst
  rw [Bool.and_eq_true] at hsecond
  obtain ⟨hok, hagain⟩ := hsecond
  obtain ⟨⟨answer', w⟩, hw, htwo⟩ := (Option.any_eq_true _ _).1 hagain
  have hu := run_of_runCalls hrun
  simp only [decide_eq_true_eq] at hsub hnone hquorum htwo
  cases answer with
  | error e => cases hok
  | ok x =>
    have hdoes := step_does (.call hv : Step u (.call (.submit forgedSubmission) (.ok x)) v)
    have hdoes' := step_does (.call hw : Step v (.call (.submit forgedSubmission) answer') w)
    have hpins : ∀ {s t : ServerState twoVotesEnv} {answer : Answer},
        Does s (.call (.submit forgedSubmission) answer) t →
          t.party = s.party ∧ derivePinnedSignerPubkeys t = derivePinnedSignerPubkeys s := by
      intro s t answer hd
      obtain ⟨ns, hn, hns⟩ := hd.nodes
      refine ⟨hd.party, derivePins_append hn hd.party fun n hm => ?_⟩
      cases hp : pinOf n with
      | none => rfl
      | some p => cases (hns n hm).pin p.1 p.2 hp
    refine ⟨ds, x, answer', u, v, w, hu, .call hv, fun hcert => ?_, .call hw,
      (hpins hdoes').1.trans (hpins hdoes).1, (hpins hdoes').2.trans (hpins hdoes).2,
      htwo⟩
    have hmatch := (submit_certified_iff fresh_stateOf hu (.call hv)).1 hcert
    have hpay := hmatch forged hsub hnone hquorum
    have hne : foldHash [1] ≠ emptyClaim := by decide
    exact hne hpay

end

end Myco.Consensus
