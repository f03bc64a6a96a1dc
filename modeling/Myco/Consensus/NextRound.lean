import Myco.Consensus.Peering
import Myco.Consensus.Rounds

/-!
# The rounds of a substrate's own votes

`next_round_id` of `substrate/src/consensus.rs` adds one to the largest round on record for the
claim, and any peer chooses the round of its vote. The addition overflows just if a vote of round
`u64::MAX` on the claim is on record (`nextRoundIdChecked_eq_none_iff`). In a run where none is when
the claim is proposed, the rounds of the substrate's own votes on a claim increase.
-/

namespace Myco.Consensus

open Myco.Lib Myco.Canonical Myco.Schema Myco.Substrate Myco.Federation

variable {env : Env}

/-- `u64::MAX`, the round after which there is none. -/
def lastRound : UInt64 := 18446744073709551615

/-- `next_round_id` in a build that checks the addition. -/
def nextRoundIdChecked (s : ServerState env) (claimType : String) (claimHash : Hash32) :
    Option UInt64 :=
  let maxRound := (claimVotes s claimType claimHash).foldl
    (fun m v => some (m.elim v.roundId (max · v.roundId))) none
  match maxRound with
  | some r => if r = lastRound then none else some (r + 1)
  | none => some 0

/-- A vote of the last round is on record for the claim. -/
def LastRoundTaken (s : ServerState env) (claimType : String) (claimHash : Hash32) : Prop :=
  ∃ v ∈ claimVotes s claimType claimHash, v.roundId = lastRound

/-- The vote of its own that the substrate signs. -/
def signedVote (s : ServerState env) : Event → Option DecodedPopulationVote
  | .call (.propose request) _ => proposedVote s request
  | _ => none

/-- A step after which no two messages have collided. -/
def CleanStep (s : ServerState env) (e : Event) (t : ServerState env) : Prop :=
  Step s e t ∧ ¬ Collided t

section

variable {s t u v : ServerState env} {e e' : Event} {es xs ys : List Event} {claimType : String}
  {ch : Hash32} {vote vote' : DecodedPopulationVote} {request : Message}

/-! ### The next round -/

theorem le_lastRound (r : UInt64) : r ≤ lastRound := by
  rw [UInt64.le_iff_toNat_le]
  have := r.toNat_lt
  show r.toNat ≤ 18446744073709551615
  omega

theorem nextRoundIdChecked_eq_none_iff :
    nextRoundIdChecked s claimType ch = none ↔ LastRoundTaken s claimType ch := by
  unfold nextRoundIdChecked LastRoundTaken
  rcases maxRound_cases (claimVotes s claimType ch) with ⟨hnil, hnone⟩ | ⟨w, hw, hmax, hlast⟩
  · rw [hnone, hnil]
    simp
  · rw [hmax]
    by_cases hr : w.roundId = lastRound
    · exact iff_of_true (if_pos hr) ⟨w, hw, hr⟩
    · refine iff_of_false (ne_of_eq_of_ne (if_neg hr) (Option.some_ne_none _)) ?_
      rintro ⟨v, hv, hvr⟩
      exact hr (UInt64.le_antisymm (le_lastRound _) (hvr ▸ hlast v hv))

/-- Short of the overflow the next round is after every round on record. -/
theorem lt_nextRoundId (h : ¬ LastRoundTaken s claimType ch)
    (hv : vote ∈ claimVotes s claimType ch) : vote.roundId < nextRoundId s claimType ch := by
  rcases @nextRoundId_spec _ s claimType ch with
    ⟨hnil, -⟩ | ⟨w, hw, hnext, hmax⟩
  · rw [hnil] at hv
    cases hv
  · have hlast : w.roundId.toNat ≠ 18446744073709551615 :=
      fun hr => h ⟨w, hw, UInt64.toNat_inj.1 hr⟩
    have hle := UInt64.le_iff_toNat_le.1 (hmax vote hv)
    have hlt := w.roundId.toNat_lt
    rw [hnext, UInt64.lt_iff_toNat_lt, UInt64.toNat_add]
    show vote.roundId.toNat < (w.roundId.toNat + 1) % 2 ^ 64
    omega

/-! ### What a proposal leaves -/

theorem barring_emitRecord {nodeType : String} {content : Bytes} (hne : nodeType ≠ "") :
    Within (Barring (Adds fun _ => True))
      (emitSubstrateEvent nodeType content : Handler env NodeHash) :=
  barring_emitSubstrateEvent hne fun _ _ _ => trivial

theorem barring_recheckVote : Within (Barring (Adds fun _ => True))
    (recheckVote vote : Handler env (Option NodeHash)) := by
  have hcheck : byzantineThresholdCheckNodeType vote.claimType ≠ "" :=
    ne_empty_of_startsWith startsWith_append (q := genesisPrefix) (by decide)
  have hpending : populationConsensusPendingNodeType vote.claimType ≠ "" :=
    ne_empty_of_startsWith startsWith_append (q := genesisPrefix) (by decide)
  have hreached : populationConsensusReachedNodeType vote.claimType ≠ "" :=
    ne_empty_of_startsWith startsWith_append (q := genesisPrefix) (by decide)
  unfold recheckVote recheckQuorumAndMaybeEmitCert
  refine within_bind within_get fun s => ?_
  split
  · exact within_pure
  · refine within_bind (barring_emitRecord hcheck) fun _ => ?_
    split
    · exact within_bind (barring_emitRecord hpending) fun _ => within_pure
    · exact within_bind within_get fun _ =>
        within_bind (barring_emitRecord hreached) fun _ => within_pure

/-- Barring a collision, a vote that is emitted is on record. -/
theorem emitVote_recorded {r : Except SubstrateError NodeHash}
    (h : (emitVote vote).exec s = some (r, t)) :
    Barring (fun _ t => (∃ hash, r = .ok hash) ∧
      vote ∈ claimVotes t vote.claimType vote.claimHash) s t := by
  have hne : populationVoteNodeType vote.claimType ≠ "" :=
    ne_empty_of_startsWith startsWith_append (q := genesisPrefix) (by decide)
  have htip : Barring (fun s t => ∃ n, t.nodes = s.nodes ++ [n]) s t := by
    rw [emitVote, Prog.exec_get_bind] at h
    exact (emitSubstrateEvent_tip hne h).imp fun h => ⟨_, h.nodes⟩
  refine htip.imp ?_
  rintro ⟨m, hm⟩
  obtain ⟨-, ⟨e, -, hn⟩ | ⟨n, hr, hn, hcast⟩⟩ := emitVote_cases h
  · exact absurd (congrArg List.length (hm.symm.trans hn)) (by simp)
  · refine ⟨⟨n.hash, hr⟩, ?_⟩
    have hvote : voteOf vote.claimType n = some vote := by
      rw [voteOf, if_pos hcast.nodeType, hcast.content]
    rw [claimVotes_append hn, List.filterMap_cons_some hvote]
    simp

/-- Barring a collision, the vote that is signed is on record. -/
theorem propose_recorded {r : Except SubstrateError (Option Message)}
    (h : (handleFederationProposePopulationClaim request).exec s = some (r, t))
    (ht : ¬ Collided t) (hvote : proposedVote s request = some vote) :
    vote ∈ claimVotes t vote.claimType vote.claimHash := by
  obtain ⟨claimType, htype, hvote⟩ := Option.bind_eq_some_iff.1 hvote
  obtain ⟨payload, hblob, hvote⟩ := Option.bind_eq_some_iff.1 hvote
  obtain rfl := Option.some.inj hvote
  rw [handleFederationProposePopulationClaim, Prog.exec_bind, exec_raise, Option.bind_some,
    toOption_eq_some.1 htype] at h
  dsimp only at h
  rw [Prog.exec_bind, exec_raise, Option.bind_some, requireBlob, hblob] at h
  dsimp only at h
  rw [Prog.exec_get_bind] at h
  generalize ownVote s claimType payload = vote at h ⊢
  rcases Prog.exec_bind_eq_some.1 h with ⟨e, h1, -⟩ | ⟨_, u, h1, h2⟩
  · obtain ⟨⟨hash, hr⟩, -⟩ := (emitVote_recorded h1).holds ht
    cases hr
  · -- what comes after the vote only appends
    have hrest : Barring (Adds fun _ => True) u t :=
      within_bind barring_recheckVote (fun _ => within_bind within_get fun _ => within_pure) _ _ _ h2
    obtain ⟨-, hrecorded⟩ := (emitVote_recorded h1).holds fun hc => ht (hrest.stays hc)
    obtain ⟨⟨ns, hn, -⟩, -⟩ := hrest.holds ht
    rw [claimVotes_append hn]
    exact List.mem_append_left _ hrecorded

/-- What is on record stays. -/
theorem claimVotes_of_step (h : Step s e t) (hv : vote ∈ claimVotes s claimType ch) :
    vote ∈ claimVotes t claimType ch := by
  obtain ⟨ns, hn, -⟩ := (step_does h).nodes
  rw [claimVotes_append hn]
  exact List.mem_append_left _ hv

theorem claimVotes_of_path (h : Path CleanStep s es t) (hv : vote ∈ claimVotes s claimType ch) :
    vote ∈ claimVotes t claimType ch :=
  h.keeps (I := fun s => vote ∈ claimVotes s claimType ch)
    (fun _ _ _ hstep hs => claimVotes_of_step hstep.1 hs) hv

/-- The vote that is signed is in the next round of its claim. -/
theorem roundId_of_signed (h : signedVote s e = some vote) :
    vote.roundId = nextRoundId s vote.claimType vote.claimHash := by
  rcases e with ⟨c, answer⟩ | _
  · cases c with
    | propose request =>
      obtain ⟨claimType, -, h⟩ := Option.bind_eq_some_iff.1 h
      obtain ⟨payload, -, h⟩ := Option.bind_eq_some_iff.1 h
      obtain rfl := Option.some.inj h
      rfl
    | _ => cases h
  · cases h

/-! ### Along a run -/

/-- Where the substrate signs a vote, no vote of the last round on its claim is on record. -/
def LastRoundFree (s : ServerState env) (es : List Event) (t : ServerState env) : Prop :=
  ∀ xs e ys u vote, es = xs ++ e :: ys → Path CleanStep s xs u → Path CleanStep u (e :: ys) t →
    signedVote u e = some vote → ¬ LastRoundTaken u vote.claimType vote.claimHash

/-- Where the substrate signs a vote its round has not overflowed, and of two votes of its own on
one claim the later one is in the later round. -/
structure RoundsFresh (s : ServerState env) (es : List Event) (t : ServerState env) : Prop where
  noOverflow : ∀ xs e ys u vote, es = xs ++ e :: ys → Path CleanStep s xs u →
    Path CleanStep u (e :: ys) t → signedVote u e = some vote →
    nextRoundIdChecked u vote.claimType vote.claimHash ≠ none
  increasing : ∀ xs e ys e' zs u v vote vote', es = xs ++ (e :: ys) ++ e' :: zs →
    Path CleanStep s xs u → Path CleanStep u (e :: ys) v → Path CleanStep v (e' :: zs) t →
    signedVote u e = some vote → signedVote v e' = some vote' → vote'.claimType = vote.claimType →
    vote'.claimHash = vote.claimHash → vote.roundId < vote'.roundId

/-- A vote that was signed is on record from then on. -/
theorem signed_recorded (h : Path CleanStep u (e :: ys) v) (hvote : signedVote u e = some vote) :
    vote ∈ claimVotes v vote.claimType vote.claimHash := by
  obtain ⟨w, ⟨hstep, hw⟩, hrest⟩ := Path.cons_iff.1 h
  refine claimVotes_of_path hrest ?_
  cases hstep with
  | other _ => cases hvote
  | @call _ c answer hexec =>
    cases c with
    | propose request => exact propose_recorded hexec hw hvote
    | _ => cases hvote

/-- In a run without a collision the rounds of the own votes are fresh just if no vote of the last
round is on record where one is signed. -/
theorem rounds_fresh_iff (s : ServerState env) (es : List Event) (t : ServerState env) :
    RoundsFresh s es t ↔ LastRoundFree s es t := by
  constructor
  · intro h xs e ys u vote hes hu ht hvote hlast
    exact h.noOverflow xs e ys u vote hes hu ht hvote (nextRoundIdChecked_eq_none_iff.2 hlast)
  · intro h
    constructor
    · intro xs e ys u vote hes hu ht hvote hnone
      exact h xs e ys u vote hes hu ht hvote (nextRoundIdChecked_eq_none_iff.1 hnone)
    · intro xs e ys e' zs u v vote vote' hes hu hv ht hvote hvote' htype hhash
      have hfree := h (xs ++ e :: ys) e' zs v vote' hes (hu.append hv) ht hvote'
      rw [roundId_of_signed hvote']
      refine lt_nextRoundId hfree ?_
      rw [htype, hhash]
      exact signed_recorded hv hvote

end

/-! ### A vote of the last round -/

section

def lastMessage : Bytes :=
  buildPopulationVoteSigningMessage "peer_revocation" emptyClaim peerId lastRound (.replicate 0)

/-- The peer has signed a hello and a vote of the last round. -/
def lastVoteEnv : Env := keyedEnv [(oldKey, helloMessage), (oldKey, lastMessage)]

def lastVote : DecodedPopulationVote :=
  ⟨"peer_revocation", emptyClaim, [], lastRound, peerId, signatureNo 1, .replicate 0⟩

def lastSubmission : Call :=
  .submit ⟨"federation_submit_peer_vote", 3,
    [("vote_event_bytes", .bytes (encodePopulationVote lastVote 0))]⟩

def emptyProposal : Call :=
  .propose ⟨"federation_propose_population_claim", 4,
    [("claim_payload", .bytes []), ("claim_type", .string "peer_revocation")]⟩

/-- Makes the calls in turn, as long as no two messages collide. -/
def runClean : ServerState lastVoteEnv → List Call →
    Option (List Event × ServerState lastVoteEnv)
  | s, [] => some ([], s)
  | s, c :: cs =>
    (c.run.exec s).bind fun (answer, t) =>
      if t.ledger.Sound then (runClean t cs).map fun (es, u) => (.call c answer :: es, u)
      else none

theorem runClean_cons {c : Call} {cs : List Call} {s t : ServerState lastVoteEnv} {es : List Event}
    (h : runClean s (c :: cs) = some (es, t)) : ∃ answer fs, es = .call c answer :: fs := by
  rw [runClean, Option.bind_eq_some_iff] at h
  obtain ⟨⟨answer, u⟩, -, h⟩ := h
  dsimp only at h
  split at h
  · obtain ⟨⟨fs, v⟩, -, h⟩ := Option.map_eq_some_iff.1 h
    cases h
    exact ⟨answer, fs, rfl⟩
  · cases h

theorem path_of_runClean {cs : List Call} {s t : ServerState lastVoteEnv} {es : List Event}
    (h : runClean s cs = some (es, t)) : Path CleanStep s es t := by
  induction cs generalizing s es with
  | nil =>
    cases h
    exact .nil
  | cons c cs ih =>
    rw [runClean, Option.bind_eq_some_iff] at h
    obtain ⟨⟨answer, u⟩, hu, h⟩ := h
    dsimp only at h
    split at h
    · rename_i hsound
      obtain ⟨⟨fs, v⟩, hv, h⟩ := Option.map_eq_some_iff.1 h
      cases h
      exact .cons ⟨.call hu, not_not.2 hsound⟩ (ih hv)
    · cases h

/-- The claim and the round of the vote that the next proposal signs. -/
def proposes (s : ServerState lastVoteEnv) : Option (String × Hash32 × UInt64) :=
  (signedVote s (.call emptyProposal (.ok none))).map fun v => (v.claimType, v.claimHash, v.roundId)

/-- A peer votes in the last round, and two votes of the substrate's own are in round 0. -/
theorem last_round_repeats : ∃ es t, Path CleanStep (stateOf lastVoteEnv []) es t ∧
    ¬ RoundsFresh (stateOf lastVoteEnv []) es t := by
  have h : (runClean (stateOf lastVoteEnv [])
      [listening, greeting (helloUnder oldKey 0), lastSubmission]).any (fun p =>
        (proposes p.2 == some ("peer_revocation", emptyClaim, 0)) &&
          (runClean p.2 [emptyProposal]).any fun q =>
            (proposes q.2 == some ("peer_revocation", emptyClaim, 0)) &&
              (runClean q.2 [emptyProposal]).isSome) = true := by
    decide +kernel
  obtain ⟨⟨xs, u⟩, hu, h⟩ := (Option.any_eq_true _ _).1 h
  rw [Bool.and_eq_true, beq_iff_eq] at h
  obtain ⟨⟨ys, v⟩, hv, h'⟩ := (Option.any_eq_true _ _).1 h.2
  rw [Bool.and_eq_true, beq_iff_eq] at h'
  obtain ⟨⟨zs, t⟩, ht⟩ := Option.isSome_iff_exists.1 h'.2
  obtain ⟨vote, hvote, hround⟩ := Option.map_eq_some_iff.1 h.1
  obtain ⟨vote', hvote', hround'⟩ := Option.map_eq_some_iff.1 h'.1
  obtain ⟨answer, ys, rfl⟩ := runClean_cons hv
  obtain ⟨answer', zs, rfl⟩ := runClean_cons ht
  have hu := path_of_runClean hu
  have hv := path_of_runClean hv
  have ht := path_of_runClean ht
  refine ⟨_, t, (hu.append hv).append ht, fun hfresh => ?_⟩
  have hlt := hfresh.increasing xs _ ys _ zs u v vote vote' rfl hu hv ht hvote hvote'
  simp only [Prod.mk.injEq] at hround hround'
  rw [hround.1, hround.2.1, hround.2.2, hround'.1, hround'.2.1, hround'.2.2] at hlt
  exact absurd (hlt rfl rfl) (by decide)

end

end Myco.Consensus
