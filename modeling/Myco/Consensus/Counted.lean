import Myco.Consensus.Pins

/-!
# Accepted votes are counted

A vote that a submission accepts has been verified under the key that its voter is pinned to. The
tally verifies the votes in the log again, under the keys of the moment: so the vote counts as long
as the voter has that key (`counted_of_run`). It is not recorded when another vote of the voter on
the triple is, and that one may be under a key that the voter no longer has.
-/

namespace Myco.Consensus

open Myco.Lib Myco.Canonical Myco.Schema Myco.Substrate Myco.Federation

variable {env : Env}

/-- Whoever has voted on the triple before has a vote there that verifies under `pk`. -/
def Unobstructed (s : ServerState env) (vote : DecodedPopulationVote) (pk : Hash32) : Prop :=
  populationVoteAlreadyRecorded s vote.claimType vote.claimHash vote.roundId
    vote.voterSubstrateId = true →
  ∃ v ∈ votesOn s vote.claimType vote.claimHash vote.roundId,
    v.voterSubstrateId = vote.voterSubstrateId ∧ verifyPopulationVote env v pk = true

/-- The answer says that the vote is accepted. -/
def accepts : Answer → Bool
  | .ok (some m) =>
    match OrdMap.get "accepted" m.payload with
    | some (.bool accepted) => accepted
    | _ => false
  | _ => false

section

variable {s t u : ServerState env} {e : Event} {es : List Event} {id pk : Hash32}
  {ns : List DagNode} {claimType : String} {ch : Hash32} {round : UInt64}
  {vote v : DecodedPopulationVote}

/-! ### This substrate is not its own peer -/

theorem mem_of_get_pinsOf (h : OrdMap.get id (pinsOf [] ns) = some pk) :
    ∃ n ∈ ns, pinOf n = some (id, pk) := by
  induction ns using List.reverseRecOn with
  | nil => cases h
  | append_singleton ns n ih =>
    have hrest : OrdMap.get id (pinsOf [] ns) = some pk →
        ∃ m ∈ ns ++ [n], pinOf m = some (id, pk) := fun h' => by
      obtain ⟨m, hm, hp⟩ := ih h'
      exact ⟨m, List.mem_append_left _ hm, hp⟩
    rw [get_pinsOf_append_singleton] at h
    cases hp : pinOf n with
    | none =>
      rw [hp] at h
      exact hrest h
    | some p =>
      obtain ⟨id', pk'⟩ := p
      rw [hp] at h
      dsimp only at h
      split at h
      · rename_i hid
        obtain ⟨rfl, -⟩ := hid
        cases h
        exact ⟨n, List.mem_append_right _ List.mem_cons_self, hp⟩
      · exact hrest h

theorem ownId_of_run (h : Run s es t) : ownId t = ownId s :=
  h.keeps (I := fun t => ownId t = ownId s) (fun _ _ _ hstep hu => (step_does hstep).ownId_eq.trans hu)
    rfl

/-- Only other substrates are pinned. -/
theorem pinned_other (hs : Fresh s) (h : Run s es t) :
    ∀ n ∈ t.nodes, ∀ id pk, pinOf n = some (id, pk) → id ≠ ownId t := by
  refine h.keeps (I := fun t => ∀ n ∈ t.nodes, ∀ id pk, pinOf n = some (id, pk) → id ≠ ownId t)
    (fun u e v hstep hu => ?_) fun n hn id pk hp => ?_
  · obtain ⟨ns, hn, hns⟩ := (step_does hstep).nodes
    intro n hm id pk hp
    rw [(step_does hstep).ownId_eq]
    rw [hn] at hm
    rcases List.mem_append.1 hm with hm | hm
    · exact hu n hm id pk hp
    · exact Event.admitted.other _ ((hns n hm).pin id pk hp)
  · rw [(hs.plain n hn).pin] at hp
    cases hp

theorem ne_ownId_of_pin (hs : Fresh s) (h : Run s es t)
    (hp : OrdMap.get id (derivePinnedSignerPubkeys t) = some pk) : id ≠ ownId t := by
  obtain ⟨n, hn, hpin⟩ := mem_of_get_pinsOf (pin_of_derivePins hp)
  exact pinned_other hs h n hn id pk hpin

/-! ### Votes in the log -/

theorem votesOn_subset (hn : t.nodes = s.nodes ++ ns) (h : v ∈ votesOn s claimType ch round) :
    v ∈ votesOn t claimType ch round := by
  rw [votesOn_append hn]
  exact List.mem_append_left _ h

theorem votesOn_of_run (h : Run s es t) (hv : v ∈ votesOn s claimType ch round) :
    v ∈ votesOn t claimType ch round := by
  refine h.keeps (I := fun t => v ∈ votesOn t claimType ch round) (fun u e w hstep hu => ?_) hv
  obtain ⟨ns, hn, -⟩ := (step_does hstep).nodes
  exact votesOn_subset hn hu

theorem Casts.mem_votesOn {n : DagNode} (h : Casts vote n) (hn : n ∈ s.nodes) :
    vote ∈ votesOn s vote.claimType vote.claimHash vote.roundId := by
  have hvote : voteOf vote.claimType n = some vote := by
    rw [voteOf, if_pos h.nodeType, h.content]
  refine List.mem_filter.2 ⟨List.mem_filter.2 ⟨List.mem_filterMap.2 ⟨n, hn, hvote⟩, ?_⟩, ?_⟩
  · exact decide_eq_true rfl
  · exact decide_eq_true rfl

/-- A vote in the log counts while its voter has a key that it verifies under. -/
theorem counted_of_mem (hv : v ∈ votesOn s claimType ch round) (hother : v.voterSubstrateId ≠ ownId s)
    (hp : OrdMap.get v.voterSubstrateId (derivePinnedSignerPubkeys s) = some pk)
    (hver : verifyPopulationVote env v pk = true) :
    v.voterSubstrateId ∈ tallied s claimType ch round (derivePinnedSignerPubkeys s) := by
  refine mem_voters.2 ⟨v, List.mem_filter.2 ⟨hv, ?_⟩, rfl⟩
  rw [voteVerifies, resolvePubkey, if_neg hother, hp]
  exact hver

/-! ### Submitting -/

theorem admitVote_eq_ok {bytes : Bytes} : admitVote s bytes = .ok vote ↔
    decodePopulationVote bytes = some vote ∧
    ∃ pk, OrdMap.get vote.voterSubstrateId (derivePinnedSignerPubkeys s) = some pk ∧
      verifyPopulationVote env vote pk = true := by
  unfold admitVote
  cases hd : decodePopulationVote bytes with
  | none => simp
  | some w =>
    dsimp only
    cases hp : OrdMap.get w.voterSubstrateId (derivePinnedSignerPubkeys s) with
    | none =>
      constructor
      · intro h
        cases h
      · rintro ⟨h, pk, hpk, -⟩
        cases h
        rw [hp] at hpk
        cases hpk
    | some pk =>
      dsimp only
      split
      · rename_i hver
        constructor
        · intro h
          cases h
          exact ⟨rfl, pk, hp, hver⟩
        · rintro ⟨h, -⟩
          cases h
          rfl
      · rename_i hver
        constructor
        · intro h
          cases h
        · rintro ⟨h, pk', hpk, hver'⟩
          cases h
          rw [hp] at hpk
          cases hpk
          exact absurd hver' hver

theorem accepts_reject {request : Message} {reason : String} :
    accepts (.ok (rejectVoteResponse request reason)) = false := by
  rw [rejectVoteResponse, respond, accepts, OrdMap.get_ofList utf8_injective]
  rfl

/-- Nothing that voting appends is a pin, and the vote is in the log or one of the voter was. -/
theorem Voting.nodes {r : Except SubstrateError (Option NodeHash)} (h : Voting s vote r t) :
    t.party = s.party ∧ ∃ ns, t.nodes = s.nodes ++ ns ∧ ∀ n ∈ ns, pinOf n = none := by
  cases h with
  | failed hp hn => exact ⟨hp, [], by simp [hn], by simp⟩
  | rechecked hrec hre =>
    obtain ⟨hp, ns, hn, hns⟩ := recheck_logged hre
    refine ⟨hp.trans hrec.party, ?_⟩
    rcases hrec.nodes with ⟨-, hu⟩ | ⟨n, hu, hcast⟩
    · exact ⟨ns, by rw [hn, hu], fun n hm => (hns n hm).1⟩
    · refine ⟨n :: ns, by rw [hn, hu, List.append_assoc]; rfl, ?_⟩
      rw [List.forall_mem_cons]
      exact ⟨hcast.pinOf_eq, fun n hm => (hns n hm).1⟩

theorem Voting.mem_votesOn {certHash : Option NodeHash} (h : Voting s vote (.ok certHash) t)
    (hver : verifyPopulationVote env vote pk = true) (hclear : Unobstructed s vote pk) :
    ∃ v ∈ votesOn t vote.claimType vote.claimHash vote.roundId,
      v.voterSubstrateId = vote.voterSubstrateId ∧ verifyPopulationVote env v pk = true := by
  cases h with
  | rechecked hrec hre =>
    obtain ⟨-, ns, hn, -⟩ := recheck_logged hre
    rcases hrec.nodes with ⟨hold, hu⟩ | ⟨n, hu, hcast⟩
    · obtain ⟨v, hv, hvoter, hvv⟩ := hclear hold
      exact ⟨v, votesOn_subset (hn.trans (by rw [hu])) hv, hvoter, hvv⟩
    · have hmem : n ∈ t.nodes := by
        rw [hn, hu]
        simp
      exact ⟨vote, hcast.mem_votesOn hmem, rfl, hver⟩

theorem submit_accepted {request : Message} {answer : Answer}
    (h : Step s (.call (.submit request) answer) t) (hacc : accepts answer = true) :
    ∃ vote certHash, submittedVote s request = some vote ∧ Voting s vote (.ok certHash) t := by
  cases h with
  | call h =>
    rcases submit_cases h with ⟨⟨e, rfl⟩ | ⟨reason, rfl⟩, -⟩ | ⟨vote, rc, hsub, hv, rfl⟩
    · cases hacc
    · rw [accepts_reject] at hacc
      cases hacc
    · cases rc with
      | error e => cases hacc
      | ok certHash => exact ⟨vote, certHash, hsub, hv⟩

end

/-- A vote that is accepted counts right away, unless only votes of the voter that do not verify are
on record, and counts whenever the voter is pinned to the key that verified it. -/
theorem accepted_vote_counted {s u t : ServerState env} {ds : List Event} {request : Message}
    {answer : Answer} (hs : Fresh s) (hu : Run s ds u)
    (h : Step u (.call (.submit request) answer) t) (hacc : accepts answer = true) :
    ∃ bytes vote pk, blob? request.payload "vote_event_bytes" = some bytes ∧
      decodePopulationVote bytes = some vote ∧
      OrdMap.get vote.voterSubstrateId (derivePinnedSignerPubkeys u) = some pk ∧
      (Unobstructed u vote pk →
        vote.voterSubstrateId ∈ tallied t vote.claimType vote.claimHash vote.roundId
          (derivePinnedSignerPubkeys t) ∧
        ∀ es w, Run t es w →
          OrdMap.get vote.voterSubstrateId (derivePinnedSignerPubkeys w) = some pk →
          vote.voterSubstrateId ∈ tallied w vote.claimType vote.claimHash vote.roundId
            (derivePinnedSignerPubkeys w)) := by
  obtain ⟨vote, certHash, hsub, hv⟩ := submit_accepted h hacc
  unfold submittedVote at hsub
  obtain ⟨bytes, hbytes, hvote⟩ := Option.bind_eq_some_iff.1 hsub
  obtain ⟨hdec, pk, hpin, hver⟩ := admitVote_eq_ok.1 (toOption_eq_some.1 hvote)
  refine ⟨bytes, vote, pk, hbytes, hdec, hpin, fun hclear => ?_⟩
  obtain ⟨v, hmem, hvoter, hvv⟩ := hv.mem_votesOn hver hclear
  obtain ⟨hparty, ns, hn, hns⟩ := hv.nodes
  have hother : v.voterSubstrateId ≠ ownId t := by
    rw [hvoter, ownId_eq hparty]
    exact ne_ownId_of_pin hs hu hpin
  -- from here on only the key of the voter matters
  have hcount : ∀ es w, Run t es w →
      OrdMap.get vote.voterSubstrateId (derivePinnedSignerPubkeys w) = some pk →
      vote.voterSubstrateId ∈ tallied w vote.claimType vote.claimHash vote.roundId
        (derivePinnedSignerPubkeys w) := by
    intro es w hw hpw
    rw [← hvoter] at hpw ⊢
    exact counted_of_mem (votesOn_of_run hw hmem) (by rwa [ownId_of_run hw]) hpw hvv
  refine ⟨hcount [] t .nil ?_, hcount⟩
  rw [derivePins_append hn hparty hns]
  exact hpin

/-! ### A voter with two keys -/

section

def emptyClaim : Hash32 := foldHash []

def voteMessage : Bytes :=
  buildPopulationVoteSigningMessage "peer_revocation" emptyClaim peerId 0 (.replicate 0)

/-- Both keys have signed a hello of the peer and its vote. -/
def twoVotesEnv : Env :=
  keyedEnv [(oldKey, helloMessage), (newKey, helloMessage), (oldKey, voteMessage),
    (newKey, voteMessage)]

/-- The peer's vote, whose signature is the `n`th. -/
def voteSigned (n : UInt8) : DecodedPopulationVote :=
  ⟨"peer_revocation", emptyClaim, [], 0, peerId, signatureNo n, .replicate 0⟩

def submission (n : UInt8) : Message :=
  ⟨"federation_submit_peer_vote", 3,
    [("vote_event_bytes", .bytes (encodePopulationVote (voteSigned n) 0))]⟩

def peerCounts (s : ServerState twoVotesEnv) : Bool :=
  peerId ∈ tallied s "peer_revocation" emptyClaim 0 (derivePinnedSignerPubkeys s)

def pinnedTo (pk : Hash32) (s : ServerState twoVotesEnv) : Bool :=
  OrdMap.get peerId (derivePinnedSignerPubkeys s) = some pk ∧ peerId ∉ s.revokedFederationPeers

theorem accepted_vote_counted_first : ∃ ds answer, ∃ u t : ServerState twoVotesEnv,
    Run (stateOf twoVotesEnv []) ds u ∧ Step u (.call (.submit (submission 2)) answer) t ∧
    accepts answer = true ∧
    ∃ bytes vote pk, blob? (submission 2).payload "vote_event_bytes" = some bytes ∧
      decodePopulationVote bytes = some vote ∧
      OrdMap.get vote.voterSubstrateId (derivePinnedSignerPubkeys u) = some pk ∧
      (Unobstructed u vote pk →
        vote.voterSubstrateId ∈ tallied t vote.claimType vote.claimHash vote.roundId
          (derivePinnedSignerPubkeys t) ∧
        ∀ es w, Run t es w →
          OrdMap.get vote.voterSubstrateId (derivePinnedSignerPubkeys w) = some pk →
          vote.voterSubstrateId ∈ tallied w vote.claimType vote.claimHash vote.roundId
            (derivePinnedSignerPubkeys w)) := by
  have h : (runCalls (stateOf twoVotesEnv []) [listening, greeting (helloUnder oldKey 0)]).any
      (fun p => ((Call.submit (submission 2)).run.exec p.2).any fun q => accepts q.1) = true := by
    decide +kernel
  obtain ⟨⟨ds, u⟩, hrun, hp⟩ := (Option.any_eq_true _ _).1 h
  obtain ⟨⟨answer, t⟩, hstep, hacc⟩ := (Option.any_eq_true _ _).1 hp
  have hu := run_of_runCalls hrun
  exact ⟨ds, answer, u, t, hu, .call hstep, hacc,
    accepted_vote_counted fresh_stateOf hu (.call hstep) hacc⟩

/-- The first vote is accepted and counts until the voter has another key. The same vote under that
key is accepted, and does not count. -/
theorem accepted_vote_not_counted : ∃ ds es answer answer', ∃ u v w x : ServerState twoVotesEnv,
    Run (stateOf twoVotesEnv []) ds u ∧
    Step u (.call (.submit (submission 2)) answer) v ∧ accepts answer = true ∧
    peerCounts v = true ∧
    Run v es w ∧ pinnedTo newKey w = true ∧ peerCounts w = false ∧
    Step w (.call (.submit (submission 3)) answer') x ∧ accepts answer' = true ∧
    pinnedTo newKey x = true ∧ peerCounts x = false := by
  have h : (runCalls (stateOf twoVotesEnv []) [listening, greeting (helloUnder oldKey 0)]).any
      (fun p => ((Call.submit (submission 2)).run.exec p.2).any fun q =>
        accepts q.1 && (peerCounts q.2 &&
          (runCalls q.2 [greeting (helloUnder newKey 1)]).any fun r =>
            pinnedTo newKey r.2 && (!peerCounts r.2 &&
              ((Call.submit (submission 3)).run.exec r.2).any fun y =>
                accepts y.1 && (pinnedTo newKey y.2 && !peerCounts y.2)))) = true := by
    decide +kernel
  obtain ⟨⟨ds, u⟩, hu, h⟩ := (Option.any_eq_true _ _).1 h
  obtain ⟨⟨answer, v⟩, hv, h⟩ := (Option.any_eq_true _ _).1 h
  rw [Bool.and_eq_true, Bool.and_eq_true] at h
  obtain ⟨hacc, hcounts, h⟩ := h
  obtain ⟨⟨es, w⟩, hw, h⟩ := (Option.any_eq_true _ _).1 h
  rw [Bool.and_eq_true, Bool.and_eq_true, Bool.not_eq_true'] at h
  obtain ⟨hpin, hlost, h⟩ := h
  obtain ⟨⟨answer', x⟩, hx, h⟩ := (Option.any_eq_true _ _).1 h
  rw [Bool.and_eq_true, Bool.and_eq_true, Bool.not_eq_true'] at h
  obtain ⟨hacc', hpin', hlost'⟩ := h
  exact ⟨ds, es, answer, answer', u, v, w, x, run_of_runCalls hu, .call hv, hacc, hcounts,
    run_of_runCalls hw, hpin, hlost, .call hx, hacc', hpin', hlost'⟩

end

end Myco.Consensus
