import Myco.Consensus.Rounds
import Myco.Lib.Layers
import Mathlib.Data.Finset.Card

/-!
# Votes of a network on one claim

Substrates that have each other as peers, and have pinned each other's keys, all propose one claim,
and hand each other their votes (`NetStep`). A vote is in the round after the last that its
substrate had been handed a vote of: the round is the layer of the vote (`Layers`), and the
substrates count those votes together that are in one layer (`Tracks`). So the claim is reached
where a quorum of the votes is in one layer, and then by everybody (`answers_reached_iff`); whether
one is, the order of the moves decides.
-/

namespace Myco.Consensus

open Myco.Lib Myco.Canonical Myco.Schema Myco.Substrate Myco.Federation

variable {env : Env} {N : Nat}

/-! ### The network -/

/-- The substrates, and the vote that each has cast on the claim. -/
structure Net (env : Env) (N : Nat) where
  subs : Fin N → ServerState env
  ballots : Fin N → Option Bytes

/-- The request is about this claim. -/
structure Asks (request : Message) (cls : PopulationClaimClass) (payload : Bytes) : Prop where
  claimType : string? request.payload "claim_type" = some cls.claimType
  claimPayload : blob? request.payload "claim_payload" = some payload

/-- What a substrate does in the network, each call to it being answered: it proposes the claim, it
is handed a vote of another, or it does something of its own, which appends to its log what is
neither a pin nor a vote nor a certificate. -/
inductive NetStep (cls : PopulationClaimClass) (payload : Bytes) :
    Net env N → Move (Fin N) → Net env N → Prop
  | propose {n : Net env N} {i : Fin N} {request : Message} {answer : Option Message}
      {t : ServerState env} : n.ballots i = none → Asks request cls payload →
      (handleFederationProposePopulationClaim request).exec (n.subs i) = some (.ok answer, t) →
      NetStep cls payload n (.announce i) ⟨Function.update n.subs i t,
        Function.update n.ballots i (some (encodePopulationVote
          (ownVote (n.subs i) cls.claimType payload) (n.subs i).cycleCounter))⟩
  | deliver {n : Net env N} {i j : Fin N} {bytes : Bytes} {request : Message}
      {answer : Option Message} {t : ServerState env} : i ≠ j → n.ballots i = some bytes →
      blob? request.payload "vote_event_bytes" = some bytes →
      (handleFederationSubmitPeerVote request).exec (n.subs j) = some (.ok answer, t) →
      NetStep cls payload n (.deliver i j) { n with subs := Function.update n.subs j t }
  | other {n : Net env N} {j : Fin N} {t : ServerState env} : Adds Plain (n.subs j) t →
      NetStep cls payload n (.other j) { n with subs := Function.update n.subs j t }

/-- Signatures that the seed of a key makes verify under the key. -/
def SignaturesVerify (env : Env) : Prop := ∀ seed message,
  env.signatures.verifySignature (env.signatures.publicKey seed) (env.signatures.sign seed message)
    message = true

/-- Each has the others for live peers, and has pinned their keys; nobody has heard of the claim. -/
structure Mutual (σ : Fin N → ServerState env) (claimType : String) (ch : Hash32) : Prop where
  ids : Function.Injective fun i => ownId (σ i)
  peers : ∀ i, liveNonRevoked (σ i) = (Finset.univ.erase i).image fun j => ownId (σ j)
  pins : ∀ i j, i ≠ j → OrdMap.get (ownId (σ j)) (derivePinnedSignerPubkeys (σ i)) =
    some (substrateSigningPubkey (σ j))
  filed : ∀ i, Filed (σ i)
  unheard : ∀ i, claimVotes (σ i) claimType ch = []
  uncertified : ∀ i, findValidQuorumCert (σ i) claimType ch = none
  /-- peers are counted in a `usize` -/
  size : N < 2 ^ 64

/-- Everybody proposes, and is handed every vote of the others. -/
def Complete (moves : List (Move (Fin N))) : Prop :=
  (∀ i, .announce i ∈ moves) ∧ ∀ i j, i ≠ j → .deliver i j ∈ moves

/-- `handle_federation_query_consensus` answers that the claim is reached. -/
def AnswersReached (s : ServerState env) (query : Message) : Prop :=
  ∃ m t, (handleFederationQueryConsensus query).exec s = some (.ok (some m), t) ∧
    string? m.payload "status" = some "reached"

/-! ### The handlers -/

section

variable {s t : ServerState env} {request : Message} {cls : PopulationClaimClass}
  {payload : Bytes} {answer : Option Message}

theorem Asks.requireClaimType (h : Asks request cls payload) :
    requireClaimType env request = .ok cls.claimType := by
  unfold Consensus.requireClaimType
  rw [h.claimType]
  cases cls <;> rfl

theorem Asks.proposedVote (h : Asks request cls payload) :
    proposedVote s request = some (ownVote s cls.claimType payload) := by
  unfold Consensus.proposedVote
  rw [h.requireClaimType, h.claimPayload]
  rfl

theorem Asks.answersReached (h : Asks request cls payload) :
    AnswersReached s request ↔
      (findValidQuorumCert s cls.claimType (claimHash env payload)).isSome := by
  have hexec : ∃ m, (handleFederationQueryConsensus request).exec s = some (.ok (some m), s) ∧
      string? m.payload "status" = some (if (findValidQuorumCert s cls.claimType
        (claimHash env payload)).isSome then "reached" else "pending") := by
    rw [handleFederationQueryConsensus, Prog.exec_bind, exec_raise, Option.bind_some,
      h.requireClaimType]
    dsimp only
    rw [Prog.exec_bind, exec_raise, Option.bind_some, requireBlob, h.claimPayload]
    refine ⟨_, rfl, ?_⟩
    rw [string?, OrdMap.get_ofList utf8_injective]
    cases findValidQuorumCert s cls.claimType (claimHash env payload) <;> rfl
  obtain ⟨m, hm, hstatus⟩ := hexec
  constructor
  · rintro ⟨m', t, hm', hreached⟩
    rw [hm] at hm'
    cases hm'
    rw [hstatus] at hreached
    split at hreached
    · assumption
    · exact absurd hreached (by decide)
  · intro hsome
    rw [if_pos hsome] at hstatus
    exact ⟨m, s, hm, hstatus⟩

/-- A proposal that is answered is a vote that was cast. -/
theorem propose_answered (h : Asks request cls payload)
    (he : (handleFederationProposePopulationClaim request).exec s = some (.ok answer, t)) :
    (encodePopulationVote (ownVote s cls.claimType payload) s.cycleCounter).length ≤ isizeMax ∧
    ∃ rc, Voting s (ownVote s cls.claimType payload) (.ok rc) t := by
  constructor
  · rw [handleFederationProposePopulationClaim, Prog.exec_bind, exec_raise, Option.bind_some,
      h.requireClaimType] at he
    dsimp only at he
    rw [Prog.exec_bind, exec_raise, Option.bind_some, requireBlob, h.claimPayload] at he
    dsimp only at he
    rw [Prog.exec_get_bind] at he
    rcases Prog.exec_bind_eq_some.1 he with ⟨e, -, herr⟩ | ⟨hash, u, hemit, -⟩
    · cases herr
    rw [emitVote, Prog.exec_get_bind] at hemit
    obtain ⟨-, ⟨e, herr, -⟩ | ⟨n, -, -, -, -, hmem⟩⟩ := emitSubstrateEvent_cases hemit
    · cases herr
    · exact hmem
  · rcases propose_cases he with ⟨⟨e, herr⟩, -⟩ | ⟨vote, rc, hvote, hv, hr⟩
    · cases herr
    rw [h.proposedVote] at hvote
    cases hvote
    cases rc with
    | error e => cases hr
    | ok certHash => exact ⟨certHash, hv⟩

/-- A vote that is handed over is cast. -/
theorem submit_voting {bytes : Bytes} {vote : DecodedPopulationVote}
    (hblob : blob? request.payload "vote_event_bytes" = some bytes)
    (hok : admitVote s bytes = .ok vote)
    (he : (handleFederationSubmitPeerVote request).exec s = some (.ok answer, t)) :
    ∃ rc, Voting s vote (.ok rc) t := by
  have hsub : submittedVote s request = some vote := by
    unfold submittedVote
    rw [hblob, Option.bind_eq_bind, Option.bind_some, hok]
    rfl
  rcases submit_cases he with ⟨-, -, hnone⟩ | ⟨v, rc, hvote, hv, hr⟩
  · rw [hsub] at hnone
    cases hnone
  rw [hsub] at hvote
  cases hvote
  cases rc with
  | error e => cases hr
  | ok certHash => exact ⟨certHash, hv⟩

end

/-! ### What one substrate has counted -/

section

/-- `v` is the vote of `i`, in its layer. -/
structure Votes (σ : Fin N → ServerState env) (cls : PopulationClaimClass) (payload : Bytes)
    (l : Layers (Fin N)) (i : Fin N) (v : DecodedPopulationVote) : Prop where
  claimType : v.claimType = cls.claimType
  claimPayload : v.claimPayload = payload
  claimHash : v.claimHash = claimHash env payload
  voter : v.voterSubstrateId = ownId (σ i)
  round : v.roundId = UInt64.ofNat (l.layer i)
  verifies : verifyPopulationVote env v (substrateSigningPubkey (σ i)) = true

/-- `s` is what `j` has become: it has the votes that it has heard, and counts them. -/
structure Counts (σ : Fin N → ServerState env) (cls : PopulationClaimClass) (payload : Bytes)
    (l : Layers (Fin N)) (j : Fin N) (s : ServerState env) : Prop where
  party : s.party = (σ j).party
  pins : derivePinnedSignerPubkeys s = derivePinnedSignerPubkeys (σ j)
  filed : Filed s
  settled : Settled s cls.claimType (claimHash env payload)
  votes : ∀ v ∈ claimVotes s cls.claimType (claimHash env payload),
    ∃ i ∈ l.heard j, Votes σ cls payload l i v
  heard : ∀ i ∈ l.heard j, ∃ v ∈ claimVotes s cls.claimType (claimHash env payload),
    Votes σ cls payload l i v

variable {σ : Fin N → ServerState env} {cls : PopulationClaimClass} {payload : Bytes}
  {l l' : Layers (Fin N)} {i j : Fin N} {v w : DecodedPopulationVote} {s t : ServerState env}

theorem Votes.of_layer (h : Votes σ cls payload l i v) (hl : l'.layer i = l.layer i) :
    Votes σ cls payload l' i v :=
  ⟨h.claimType, h.claimPayload, h.claimHash, h.voter, by rw [h.round, hl], h.verifies⟩

/-- The moves of others leave what one has counted. -/
theorem Counts.of_layers (h : Counts σ cls payload l j s) (hheard : l'.heard j = l.heard j)
    (hlayer : ∀ i ∈ l.heard j, l'.layer i = l.layer i) : Counts σ cls payload l' j s where
  party := h.party
  pins := h.pins
  filed := h.filed
  settled := h.settled
  votes v hv := by
    obtain ⟨i, hi, hvote⟩ := h.votes v hv
    exact ⟨i, hheard ▸ hi, hvote.of_layer (hlayer i hi)⟩
  heard i hi := by
    rw [hheard] at hi
    obtain ⟨v, hv, hvote⟩ := h.heard i hi
    exact ⟨v, hv, hvote.of_layer (hlayer i hi)⟩

theorem Counts.plain (h : Counts σ cls payload l j s) (ht : Adds Plain s t) :
    Counts σ cls payload l j t := by
  obtain ⟨ns, hn, hns⟩ := ht.nodes
  have hvotes : claimVotes t cls.claimType (claimHash env payload) =
      claimVotes s cls.claimType (claimHash env payload) := by
    rw [claimVotes_append hn, List.filterMap_eq_nil_iff.2 fun n hm => (hns n hm).vote _]
    exact List.append_nil _
  refine ⟨ht.party.trans h.party, ?_, ?_, h.settled.plain hn ht.party hns, ?_, ?_⟩
  · rw [derivePins_append hn ht.party fun n hm => (hns n hm).pin, h.pins]
  · intro n hm ct v hv
    rw [hn] at hm
    rcases List.mem_append.1 hm with hm | hm
    · exact h.filed n hm ct v hv
    · rw [(hns n hm).vote] at hv
      cases hv
  · rw [hvotes]
    exact h.votes
  · rw [hvotes]
    exact h.heard

/-- A vote that is cast is heard. -/
theorem Counts.voted (h : Counts σ cls payload l j s)
    (hids : Function.Injective fun i => ownId (σ i)) (hvote : Votes σ cls payload l' i v) (hv : Voted s v t)
    (hheard : l'.heard j = insert i (l.heard j))
    (hlayer : ∀ k ∈ l.heard j, l'.layer k = l.layer k) : Counts σ cls payload l' j t := by
  have hct := hvote.claimType
  have hch := hvote.claimHash
  refine ⟨hv.party.trans h.party, hv.pins.trans h.pins, hv.filed, ?_, ?_, ?_⟩
  · rw [← hct, ← hch]
    exact hv.settled
  · intro w hw
    rw [← hct, ← hch] at hw
    rcases hv.new w hw with hw | rfl
    · rw [hct, hch] at hw
      obtain ⟨k, hk, hwk⟩ := h.votes w hw
      exact ⟨k, hheard ▸ Finset.mem_insert_of_mem hk, hwk.of_layer (hlayer k hk)⟩
    · exact ⟨i, hheard ▸ Finset.mem_insert_self _ _, hvote⟩
  · have hold : ∀ k ∈ l.heard j, ∃ w ∈ claimVotes t cls.claimType (claimHash env payload),
        Votes σ cls payload l' k w := by
      intro k hk
      obtain ⟨w, hw, hwk⟩ := h.heard k hk
      refine ⟨w, ?_, hwk.of_layer (hlayer k hk)⟩
      rw [← hct, ← hch] at hw ⊢
      exact hv.old w hw
    intro k hk
    rw [hheard] at hk
    rcases Finset.mem_insert.1 hk with rfl | hk
    · rcases hv.recorded with hrec | hmem
      · -- a vote of the same voter stands in the way, which is the one vote of it
        obtain ⟨w, hw, hvoter⟩ := List.any_eq_true.1 hrec
        rw [decide_eq_true_eq] at hvoter
        have hw' := (List.mem_filter.1 hw).1
        rw [hct, hch] at hw'
        obtain ⟨k', hk', hwk⟩ := h.votes w hw'
        have hkk : k' = k := hids (hwk.voter.symm.trans (hvoter.trans hvote.voter))
        exact hold k (hkk ▸ hk')
      · rw [hct, hch] at hmem
        exact ⟨v, hmem, hvote⟩
    · exact hold k hk

end

/-! ### What the network has counted -/

def Net.start (σ : Fin N → ServerState env) : Net env N := ⟨σ, fun _ => none⟩

/-- Each substrate has counted what it has heard, and the ballots are the votes of those that have
proposed. -/
structure Tracks (σ : Fin N → ServerState env) (cls : PopulationClaimClass) (payload : Bytes)
    (n : Net env N) (l : Layers (Fin N)) : Prop where
  sound : l.Sound
  counts : ∀ j, Counts σ cls payload l j (n.subs j)
  unannounced : ∀ i, n.ballots i = none → i ∉ l.announced
  ballots : ∀ i bytes, n.ballots i = some bytes → i ∈ l.announced ∧
    ∃ v, decodePopulationVote bytes = some v ∧ Votes σ cls payload l i v

section

variable {σ : Fin N → ServerState env} {cls : PopulationClaimClass} {payload : Bytes}
  {n n' : Net env N} {l : Layers (Fin N)} {i j : Fin N} {s t : ServerState env}
  {moves : List (Move (Fin N))} {m : Move (Fin N)}

theorem not_hasQuorum_of_unheard (hs : claimVotes s cls.claimType (claimHash env payload) = [])
    (round : UInt64) : ¬ HasQuorum s cls.claimType (claimHash env payload) round := by
  have hnone : tallied s cls.claimType (claimHash env payload) round
      (derivePinnedSignerPubkeys s) = ∅ := by
    rw [tallied, votesOn, hs]
    rfl
  rw [HasQuorum, hnone, Finset.card_empty]
  exact Nat.not_le.2 (quorumThreshold_pos (Nat.succ_pos _))

theorem tracks_start (h : Mutual σ cls.claimType (claimHash env payload)) :
    Tracks σ cls payload (.start σ) .start where
  sound := Layers.sound_start
  counts j := by
    refine ⟨rfl, rfl, h.filed j, ?_, fun v hv => ?_, fun i hi => nomatch hi⟩
    · refine iff_of_false ?_ fun ⟨round, hq⟩ => not_hasQuorum_of_unheard (h.unheard j) round hq
      show ¬ (findValidQuorumCert (σ j) _ _).isSome
      rw [h.uncertified j]
      exact Bool.false_ne_true
    · have hv' : v ∈ claimVotes (σ j) cls.claimType (claimHash env payload) := hv
      rw [h.unheard j] at hv'
      cases hv'
  unannounced i _ hi := nomatch Layers.mem_announced.1 hi
  ballots i bytes h := nomatch h

theorem toNat_ofNat_layer (hN : N < 2 ^ 64) (hl : l.Sound) (hi : i ∈ l.announced) :
    (UInt64.ofNat (l.layer i)).toNat = l.layer i := by
  have h1 := hl.layer_lt i hi
  have h2 := Finset.card_le_univ l.announced
  rw [Fintype.card_fin] at h2
  exact UInt64.toNat_ofNat_of_lt' (by show _ < 2 ^ 64; omega)

/-- The next vote is in the layer above what its substrate has heard. -/
theorem Counts.nextRoundId (h : Counts σ cls payload l j s) (hN : N < 2 ^ 64) (hl : l.Sound) :
    nextRoundId s cls.claimType (claimHash env payload) = UInt64.ofNat (l.above j) := by
  rcases @nextRoundId_spec env s cls.claimType (claimHash env payload) with
    ⟨hnil, hnext⟩ | ⟨v, hv, hnext, hlast⟩
  · have hnone : l.heard j = ∅ := by
      refine Finset.eq_empty_of_forall_notMem fun i hi => ?_
      obtain ⟨v, hv, -⟩ := h.heard i hi
      rw [hnil] at hv
      cases hv
    rw [hnext, Layers.above, hnone]
    rfl
  · obtain ⟨k, hk, hvk⟩ := h.votes v hv
    have habove : l.above j = l.layer k + 1 := by
      refine Nat.le_antisymm (Finset.sup_le fun i hi => ?_)
        (Finset.le_sup (f := fun i => l.layer i + 1) hk)
      obtain ⟨w, hw, hwi⟩ := h.heard i hi
      have hle := UInt64.le_iff_toNat_le.1 (hlast w hw)
      rw [hwi.round, hvk.round, toNat_ofNat_layer hN hl (hl.heard i j hi),
        toNat_ofNat_layer hN hl (hl.heard k j hk)] at hle
      omega
    rw [hnext, hvk.round, habove, UInt64.ofNat_add]
    rfl

theorem update_subs {subs : Fin N → ServerState env} {P : Fin N → ServerState env → Prop}
    (ht : P j t) (h : ∀ k, k ≠ j → P k (subs k)) (k : Fin N) :
    P k (Function.update subs j t k) := by
  by_cases hk : k = j
  · subst hk
    rwa [Function.update_self]
  · rw [Function.update_of_ne hk]
    exact h k hk

/-- A vote that `j` casts or is handed changes the count of `j` alone. -/
theorem Tracks.hear {l' : Layers (Fin N)} {v : DecodedPopulationVote} {rc : Option NodeHash}
    (h : Tracks σ cls payload n l) (h0 : Mutual σ cls.claimType (claimHash env payload))
    (hvote : Votes σ cls payload l' i v) (hv : Voting (n.subs j) v (.ok rc) t)
    (hheard : l'.heard = l.hear i j) (hlayer : ∀ k ∈ l.announced, l'.layer k = l.layer k)
    (k : Fin N) : Counts σ cls payload l' k (Function.update n.subs j t k) := by
  have hc := h.counts j
  have hpay : claimHash env v.claimPayload = v.claimHash := by
    rw [hvote.claimPayload, hvote.claimHash]
  have hsettled : Settled (n.subs j) v.claimType v.claimHash := by
    rw [hvote.claimType, hvote.claimHash]
    exact hc.settled
  refine update_subs ?_ (fun k hk => ?_) k
  · refine hc.voted h0.ids hvote (hv.voted hc.filed hsettled hpay) ?_ fun k hk =>
      hlayer k (h.sound.heard k j hk)
    rw [hheard, Layers.hear_self]
  · refine (h.counts k).of_layers ?_ fun i hi => hlayer i (h.sound.heard i k hi)
    rw [hheard, Layers.hear_of_ne hk]

theorem Tracks.propose {request : Message} {answer : Option Message}
    (h : Tracks σ cls payload n l) (h0 : Mutual σ cls.claimType (claimHash env payload))
    (hsign : SignaturesVerify env) (hnone : n.ballots i = none) (hasks : Asks request cls payload)
    (he : (handleFederationProposePopulationClaim request).exec (n.subs i) =
      some (.ok answer, t)) :
    Tracks σ cls payload ⟨Function.update n.subs i t, Function.update n.ballots i
      (some (encodePopulationVote (ownVote (n.subs i) cls.claimType payload)
        (n.subs i).cycleCounter))⟩ (l.move (.announce i)) := by
  obtain ⟨hmem, rc, hv⟩ := propose_answered hasks he
  have hc := h.counts i
  have hnew : i ∉ l.announced := h.unannounced i hnone
  have hlayer : ∀ k ∈ l.announced, (l.move (.announce i)).layer k = l.layer k := by
    intro k hk
    exact Function.update_of_ne (fun hki : k = i => hnew (hki ▸ hk)) _ _
  have hown : Votes σ cls payload (l.move (.announce i)) i
      (ownVote (n.subs i) cls.claimType payload) := by
    refine ⟨rfl, rfl, rfl, ownId_eq hc.party, ?_, ?_⟩
    · show nextRoundId _ _ _ = UInt64.ofNat (Function.update l.layer i (l.above i) i)
      rw [Function.update_self]
      exact hc.nextRoundId h0.size h.sound
    · rw [← substrateSigningPubkey_eq hc.party]
      exact hsign _ _
  refine ⟨h.sound.move hnew, h.hear h0 hown hv rfl hlayer, fun k hk => ?_, fun k bytes hk => ?_⟩
  · rw [Layers.announced_announce, Finset.mem_insert]
    by_cases hki : k = i
    · subst hki
      have hk' : Function.update n.ballots k _ k = none := hk
      rw [Function.update_self] at hk'
      exact absurd hk' (Option.some_ne_none _)
    · have hk' : Function.update n.ballots i _ k = none := hk
      rw [Function.update_of_ne hki] at hk'
      exact not_or.2 ⟨hki, h.unannounced k hk'⟩
  · rw [Layers.announced_announce, Finset.mem_insert]
    have hk' : Function.update n.ballots i _ k = some bytes := hk
    by_cases hki : k = i
    · subst hki
      rw [Function.update_self] at hk'
      rw [← Option.some.inj hk']
      exact ⟨.inl rfl, _, decode_encodePopulationVote hmem, hown⟩
    · rw [Function.update_of_ne hki] at hk'
      obtain ⟨hk', v, hdec, hvk⟩ := h.ballots k bytes hk'
      exact ⟨.inr hk', v, hdec, hvk.of_layer (hlayer k hk')⟩

theorem Tracks.deliver {bytes : Bytes} {request : Message} {answer : Option Message}
    (h : Tracks σ cls payload n l) (h0 : Mutual σ cls.claimType (claimHash env payload))
    (hne : i ≠ j) (hballot : n.ballots i = some bytes)
    (hblob : blob? request.payload "vote_event_bytes" = some bytes)
    (he : (handleFederationSubmitPeerVote request).exec (n.subs j) = some (.ok answer, t)) :
    Tracks σ cls payload { n with subs := Function.update n.subs j t }
      (l.move (.deliver i j)) := by
  obtain ⟨hi, v, hdec, hvote⟩ := h.ballots i bytes hballot
  have hc := h.counts j
  have hok : admitVote (n.subs j) bytes = .ok v := by
    refine admitVote_eq_ok.2 ⟨hdec, _, ?_, hvote.verifies⟩
    rw [hc.pins, hvote.voter]
    exact h0.pins j i hne.symm
  obtain ⟨rc, hv⟩ := submit_voting hblob hok he
  have hvote' : Votes σ cls payload (l.move (.deliver i j)) i v := hvote.of_layer rfl
  refine ⟨h.sound.move ⟨hne, hi⟩, h.hear h0 hvote' hv rfl fun _ _ => rfl, ?_, ?_⟩
  · rw [Layers.announced_deliver hne]
    exact h.unannounced
  · intro k bytes hk
    rw [Layers.announced_deliver hne]
    obtain ⟨hk, w, hw, hwk⟩ := h.ballots k bytes hk
    exact ⟨hk, w, hw, hwk.of_layer rfl⟩

theorem Tracks.step (h : Tracks σ cls payload n l)
    (h0 : Mutual σ cls.claimType (claimHash env payload)) (hsign : SignaturesVerify env)
    (hstep : NetStep cls payload n m n') : Tracks σ cls payload n' (l.move m) := by
  cases hstep with
  | propose hnone hasks he => exact h.propose h0 hsign hnone hasks he
  | deliver hne hballot hblob he => exact h.deliver h0 hne hballot hblob he
  | @other j t ht =>
    exact ⟨h.sound, update_subs ((h.counts j).plain ht) fun k _ => h.counts k, h.unannounced,
      h.ballots⟩

theorem Tracks.path (h : Tracks σ cls payload n l)
    (h0 : Mutual σ cls.claimType (claimHash env payload)) (hsign : SignaturesVerify env)
    (hpath : Path (NetStep cls payload) n moves n') :
    Tracks σ cls payload n' (moves.foldl Layers.move l) := by
  induction hpath generalizing l with
  | nil => exact h
  | cons h1 _ ih => exact ih (h.step h0 hsign h1)

/-! ### What is reached -/

theorem peerSetSizeN_mutual (h0 : Mutual σ cls.claimType (claimHash env payload)) :
    peerSetSizeN (σ j) = N := by
  rw [peerSetSizeN, h0.peers, Finset.card_image_of_injective _ h0.ids, Finset.card_erase_of_mem
    (Finset.mem_univ j), Finset.card_univ, Fintype.card_fin]
  have := j.isLt
  omega

theorem Counts.verifies {v : DecodedPopulationVote} (hc : Counts σ cls payload l j s)
    (h0 : Mutual σ cls.claimType (claimHash env payload)) (hv : Votes σ cls payload l i v) :
    voteVerifies s (derivePinnedSignerPubkeys s) v = true := by
  have hkey : resolvePubkey s (derivePinnedSignerPubkeys s) v.voterSubstrateId =
      some (substrateSigningPubkey (σ i)) := by
    rw [resolvePubkey_eq hc.party, resolvePubkey, hv.voter, hc.pins]
    by_cases hij : j = i
    · subst hij
      exact if_pos rfl
    · rw [if_neg fun hid => hij (h0.ids hid).symm]
      exact h0.pins j i hij
  rw [voteVerifies, hkey]
  exact hv.verifies

/-- Once everything is heard, the votes of a layer are counted together. -/
theorem Counts.tallied (hc : Counts σ cls payload l j s)
    (h0 : Mutual σ cls.claimType (claimHash env payload)) (hl : l.Sound)
    (hall : ∀ i, i ∈ l.heard j) {round : UInt64} :
    tallied s cls.claimType (claimHash env payload) round (derivePinnedSignerPubkeys s) =
      (Finset.univ.filter fun i => l.layer i = round.toNat).image fun i => ownId (σ i) := by
  have hround : ∀ i, UInt64.ofNat (l.layer i) = round ↔ l.layer i = round.toNat := by
    intro i
    rw [← UInt64.toNat_inj, toNat_ofNat_layer h0.size hl (hl.heard i j (hall i))]
  ext id
  rw [Consensus.tallied, mem_voters, Finset.mem_image]
  constructor
  · rintro ⟨v, hv, rfl⟩
    obtain ⟨hmem, hr⟩ := List.mem_filter.1 (List.mem_filter.1 hv).1
    obtain ⟨i, -, hvi⟩ := hc.votes v hmem
    refine ⟨i, Finset.mem_filter.2 ⟨Finset.mem_univ i, (hround i).1 ?_⟩, hvi.voter.symm⟩
    rw [← hvi.round]
    exact of_decide_eq_true hr
  · rintro ⟨i, hi, rfl⟩
    obtain ⟨v, hv, hvi⟩ := hc.heard i (hall i)
    refine ⟨v, List.mem_filter.2 ⟨List.mem_filter.2 ⟨hv, decide_eq_true ?_⟩,
      hc.verifies h0 hvi⟩, hvi.voter⟩
    rw [hvi.round]
    exact (hround i).2 (Finset.mem_filter.1 hi).2

theorem Counts.reached_iff (hc : Counts σ cls payload l j s)
    (h0 : Mutual σ cls.claimType (claimHash env payload)) (hl : l.Sound)
    (hall : ∀ i, i ∈ l.heard j) :
    (findValidQuorumCert s cls.claimType (claimHash env payload)).isSome ↔
      ∃ r, quorumThreshold N ≤ (Finset.univ.filter fun i => l.layer i = r).card := by
  have hcard : ∀ round, HasQuorum s cls.claimType (claimHash env payload) round ↔
      quorumThreshold N ≤ (Finset.univ.filter fun i => l.layer i = round.toNat).card := by
    intro round
    rw [HasQuorum, hc.tallied h0 hl hall, Finset.card_image_of_injective _ h0.ids,
      peerSetSizeN_eq hc.party, peerSetSizeN_mutual h0]
  rw [show _ ↔ ∃ round, HasQuorum s _ _ round from hc.settled]
  constructor
  · rintro ⟨round, hq⟩
    exact ⟨round.toNat, (hcard round).1 hq⟩
  · rintro ⟨r, hr⟩
    have hN : 0 < N := j.pos
    obtain ⟨i, hi⟩ := Finset.card_pos.1 ((quorumThreshold_pos hN).trans_le hr)
    have hri := (Finset.mem_filter.1 hi).2
    refine ⟨UInt64.ofNat r, (hcard _).2 ?_⟩
    rwa [← hri, toNat_ofNat_layer h0.size hl (hl.heard i j (hall i)), hri]

/-- Once everybody has proposed the claim and been handed all votes, one answers that it is reached
just if a quorum of the votes is in one layer. -/
theorem answersReached_iff_layer {query : Message}
    (h0 : Mutual σ cls.claimType (claimHash env payload)) (hsign : SignaturesVerify env)
    (hpath : Path (NetStep cls payload) (.start σ) moves n) (hall : Complete moves)
    (hasks : Asks query cls payload) (j : Fin N) :
    AnswersReached (n.subs j) query ↔
      ∃ r, quorumThreshold N ≤
        (Finset.univ.filter fun i => (layersOf moves).layer i = r).card := by
  have htracks : Tracks σ cls payload n (layersOf moves) := (tracks_start h0).path h0 hsign hpath
  refine hasks.answersReached.trans
    ((htracks.counts j).reached_iff h0 htracks.sound fun i => ?_)
  by_cases hij : i = j
  · subst hij
    exact Layers.mem_heard_of_announce (hall.1 i)
  · exact Layers.mem_heard_of_deliver (hall.2 i j hij)

/-- The claim is reached with everybody exactly where a quorum of the votes is in one layer. -/
theorem answers_reached_iff {query : Message} (hN : 4 ≤ N)
    (h0 : Mutual σ cls.claimType (claimHash env payload)) (hsign : SignaturesVerify env)
    (hpath : Path (NetStep cls payload) (.start σ) moves n) (hall : Complete moves)
    (hasks : Asks query cls payload) :
    (∀ i, AnswersReached (n.subs i) query) ↔
      ∃ r, quorumThreshold N ≤
        (Finset.univ.filter fun i => (layersOf moves).layer i = r).card := by
  constructor
  · intro h
    exact (answersReached_iff_layer h0 hsign hpath hall hasks ⟨0, by omega⟩).1 (h _)
  · exact fun h j => (answersReached_iff_layer h0 hsign hpath hall hasks j).2 h

end

/-! ### One after the other -/

section

def signed (seed : Hash32) (message : Bytes) : Signature :=
  ⟨seed.bytes ++ (foldHash message).bytes, by
    rw [List.length_append, seed.length_eq, (foldHash message).length_eq]⟩

/-- A key is its seed. -/
def sharedEnv : Env :=
  { smallEnv with
    blake3 := foldHash
    signatures := ⟨id, signed, fun pk s m => s = signed pk m, fun _ _ _ => ""⟩ }

theorem signaturesVerify_sharedEnv : SignaturesVerify sharedEnv := fun _ _ => decide_eq_true rfl

def memberId (i : Fin 4) : Hash32 := .replicate (UInt8.ofNat (i + 1))

def memberSeed (i : Fin 4) : Hash32 := .replicate (UInt8.ofNat (i + 11))

def helloOf (i : Fin 4) : Message :=
  ⟨"fed_hello", 1, OrdMap.ofList utf8 [("peer_substrate_id", hashValue (memberId i)),
    ("protocol_version", .uint 1), ("signer_pubkey", hashValue (memberSeed i)),
    ("hello_signature",
      .bytes (signed (memberSeed i) (buildFedHelloSigningMessage (memberId i) none 1)).bytes)]⟩

def newborn (i : Fin 4) : ServerState sharedEnv :=
  { stateOf sharedEnv [] with
    substrateId := some (memberId i)
    substrateSigningSeed := memberSeed i }

def others (i : Fin 4) : List (Fin 4) := (List.finRange 4).filter (· ≠ i)

/-- The others have connected and said hello. -/
def joined (i : Fin 4) : Option (List Event × ServerState sharedEnv) :=
  runCalls (newborn i) (listening :: (others i).map fun j => greeting (helloOf j))

def member (i : Fin 4) : ServerState sharedEnv := ((joined i).map Prod.snd).getD (newborn i)

def memberChecks (i : Fin 4) : Bool :=
  (joined i).isSome && decide (ownId (member i) = memberId i) &&
    decide (liveNonRevoked (member i) = (Finset.univ.erase i).image memberId) &&
    (others i).all (fun j => OrdMap.get (memberId j) (derivePinnedSignerPubkeys (member i)) =
      some (memberSeed j)) &&
    decide (substrateSigningPubkey (member i) = memberSeed i) &&
    (claimVotes (member i) "peer_revocation" emptyClaim).isEmpty &&
    (findValidQuorumCert (member i) "peer_revocation" emptyClaim).isNone

theorem memberChecks_all : ∀ i, memberChecks i = true := by decide +kernel

theorem mutual_member : Mutual member "peer_revocation" emptyClaim := by
  have h : ∀ i, memberChecks i = true := memberChecks_all
  unfold memberChecks at h
  simp only [Bool.and_eq_true, decide_eq_true_eq, List.all_eq_true, List.isEmpty_iff,
    Option.isNone_iff_eq_none] at h
  have hid : (fun j => ownId (member j)) = memberId := funext fun j => (h j).1.1.1.1.1.2
  constructor
  · rw [hid]
    decide
  · intro i
    rw [hid]
    exact (h i).1.1.1.1.2
  · intro i j hij
    rw [congrFun hid j, (h j).1.1.2]
    exact (h i).1.1.1.2 j (List.mem_filter.2 ⟨List.mem_finRange j, decide_eq_true hij.symm⟩)
  · intro i
    obtain ⟨⟨es, t⟩, ht⟩ := Option.isSome_iff_exists.1 (h i).1.1.1.1.1.1
    have hfresh : Fresh (newborn i) := ⟨rfl, fun n hn => absurd hn List.not_mem_nil⟩
    have hmember : member i = t := by rw [member, ht]; rfl
    rw [hmember]
    exact filed_of_run hfresh (run_of_runCalls ht)
  · exact fun i => (h i).1.2
  · exact fun i => (h i).2
  · decide

def proposal : Message :=
  ⟨"federation_propose_population_claim", 4,
    [("claim_payload", .bytes []), ("claim_type", .string "peer_revocation")]⟩

theorem asks_proposal : Asks proposal .peerRevocation [] := ⟨rfl, rfl⟩

def handing (bytes : Bytes) : Message :=
  ⟨"federation_submit_peer_vote", 5, [("vote_event_bytes", .bytes bytes)]⟩

/-- The state that an answered call leaves. -/
def stateAfter {α : Type} (r : Option (Except SubstrateError α × ServerState env)) :
    Option (ServerState env) := r.bind fun p => p.1.toOption.map fun _ => p.2

theorem stateAfter_eq_some {α : Type} {r : Option (Except SubstrateError α × ServerState env)}
    {t : ServerState env} (h : stateAfter r = some t) : ∃ a, r = some (.ok a, t) := by
  obtain ⟨⟨x, u⟩, hr, hx⟩ := Option.bind_eq_some_iff.1 h
  obtain ⟨a, ha, rfl⟩ := Option.map_eq_some_iff.1 hx
  obtain rfl : x = .ok a := toOption_eq_some.1 ha
  exact ⟨a, hr⟩

/-- Each proposes once it has been handed the votes of those before it. -/
def inTurn : List (Move (Fin 4)) :=
  (List.finRange 4).flatMap fun i => .announce i :: (others i).map (.deliver i)

theorem complete_inTurn : Complete inTurn := by
  constructor <;> decide

/-- The tip of a member when its turn comes, as the first eight bytes of the hash. -/
def tipInTurn : Fin 4 → UInt64
  | 0 => 0x0499C87637A06770
  | 1 => 0x01C7870F6A881CC2
  | 2 => 0x1DF23BD22C79A9A7
  | 3 => 0x0BCB5DA9D6CF0A7D

/-- The vote of a member: it has been handed votes of `i` rounds. -/
def voteInTurn (i : Fin 4) : DecodedPopulationVote :=
  let tip : Hash32 := ⟨u64Be (tipInTurn i) ++ .replicate 24 0, by simp [u64Be_length]⟩
  { claimType := "peer_revocation"
    claimPayload := []
    claimHash := emptyClaim
    roundId := UInt64.ofNat i
    voterSubstrateId := memberId i
    voterSignature := signed (memberSeed i) (buildPopulationVoteSigningMessage "peer_revocation"
      emptyClaim (memberId i) (UInt64.ofNat i) tip)
    peerDagTipAtVote := tip }

def ballot (i : Fin 4) : Bytes := encodePopulationVote (voteInTurn i) 0

/-- What becomes of `j` in the turn of `i`: it casts that vote, or is handed it. -/
def afterTurn (j : Fin 4) (s : ServerState sharedEnv) (i : Fin 4) :
    Option (ServerState sharedEnv) :=
  if j = i then
    if encodePopulationVote (ownVote s "peer_revocation" []) s.cycleCounter = ballot i then
      stateAfter ((handleFederationProposePopulationClaim proposal).exec s)
    else none
  else stateAfter ((handleFederationSubmitPeerVote (handing (ballot i))).exec s)

/-- The vote of `i` is handed to these, one after the other. -/
theorem path_delivers {i : Fin 4} {js : List (Fin 4)} {σ u : Fin 4 → ServerState sharedEnv}
    {ballots : Fin 4 → Option Bytes} (hi : i ∉ js) (hjs : js.Nodup)
    (hballot : ballots i = some (ballot i)) (h : ∀ j ∈ js, afterTurn j (σ j) i = some (u j)) :
    Path (NetStep .peerRevocation []) ⟨σ, ballots⟩ (js.map (.deliver i))
      ⟨fun j => if j ∈ js then u j else σ j, ballots⟩ := by
  induction js generalizing σ with
  | nil => exact .nil
  | cons j js ih =>
    obtain ⟨hne, hi⟩ := not_or.1 (mt List.mem_cons.2 hi)
    obtain ⟨hj, hjs⟩ := List.nodup_cons.1 hjs
    have hfirst := h j List.mem_cons_self
    rw [afterTurn, if_neg (Ne.symm hne)] at hfirst
    obtain ⟨answer, hexec⟩ := stateAfter_eq_some hfirst
    have hothers : ∀ k ∈ js, afterTurn k (Function.update σ j (u j) k) i = some (u k) := by
      intro k hk
      rw [Function.update_of_ne (ne_of_mem_of_not_mem hk hj)]
      exact h k (List.mem_cons_of_mem _ hk)
    have hrest := ih hi hjs hothers
    have hsubs : (fun k => if k ∈ js then u k else Function.update σ j (u j) k) =
        fun k => if k ∈ j :: js then u k else σ k := by
      funext k
      by_cases hk : k = j
      · rw [hk, if_neg hj, if_pos List.mem_cons_self, Function.update_self]
      · rw [Function.update_of_ne hk]
        simp [hk]
    exact .cons (.deliver hne hballot rfl hexec) (hsubs ▸ hrest)

/-- The turn of `i`. -/
theorem path_turn {i : Fin 4} {σ u : Fin 4 → ServerState sharedEnv}
    {ballots : Fin 4 → Option Bytes} (hnone : ballots i = none)
    (h : ∀ j, afterTurn j (σ j) i = some (u j)) :
    Path (NetStep .peerRevocation []) ⟨σ, ballots⟩ (.announce i :: (others i).map (.deliver i))
      ⟨u, Function.update ballots i (some (ballot i))⟩ := by
  have hmem : ∀ j, j ∈ others i ↔ j ≠ i := fun j => by simp [others]
  have hown := h i
  rw [afterTurn, if_pos rfl] at hown
  split at hown
  · rename_i hvote
    obtain ⟨answer, hexec⟩ := stateAfter_eq_some hown
    have hothers : ∀ j ∈ others i, afterTurn j (Function.update σ i (u i) j) i = some (u j) := by
      intro j hj
      rw [Function.update_of_ne ((hmem j).1 hj)]
      exact h j
    have hrest := path_delivers (mt (hmem i).1 (· rfl)) ((List.nodup_finRange 4).filter _)
      (Function.update_self i _ ballots) hothers
    have hsubs : (fun j => if j ∈ others i then u j else Function.update σ i (u i) j) = u := by
      funext j
      by_cases hj : j = i
      · rw [hj, if_neg (mt (hmem i).1 (· rfl)), Function.update_self]
      · rw [if_pos ((hmem j).2 hj)]
    rw [hsubs, ← hvote] at hrest
    rw [← hvote]
    exact .cons (.propose hnone asks_proposal hexec) hrest
  · cases hown

theorem path_turns {turns : List (Fin 4)} {σ : Fin 4 → ServerState sharedEnv}
    {ballots : Fin 4 → Option Bytes} (hturns : turns.Nodup) (hnone : ∀ i ∈ turns, ballots i = none)
    (h : ∀ j, (turns.foldlM (afterTurn j) (σ j)).isSome = true) :
    ∃ n, Path (NetStep .peerRevocation []) ⟨σ, ballots⟩
      (turns.flatMap fun i => .announce i :: (others i).map (.deliver i)) n := by
  induction turns generalizing σ ballots with
  | nil => exact ⟨_, .nil⟩
  | cons i turns ih =>
    obtain ⟨hi, hturns⟩ := List.nodup_cons.1 hturns
    have hturn : ∀ j, ∃ u, afterTurn j (σ j) i = some u ∧
        (turns.foldlM (afterTurn j) u).isSome = true := by
      intro j
      obtain ⟨t, ht⟩ := Option.isSome_iff_exists.1 (h j)
      obtain ⟨u, hu, hrest⟩ := Option.bind_eq_some_iff.1 ht
      exact ⟨u, hu, Option.isSome_iff_exists.2 ⟨t, hrest⟩⟩
    choose u hu hrest using hturn
    have hnone' : ∀ k ∈ turns, Function.update ballots i (some (ballot i)) k = none := by
      intro k hk
      rw [Function.update_of_ne (ne_of_mem_of_not_mem hk hi)]
      exact hnone k (List.mem_cons_of_mem _ hk)
    obtain ⟨n, hn⟩ := ih hturns hnone' hrest
    exact ⟨n, (path_turn (hnone i List.mem_cons_self) hu).append hn⟩

/-- In every turn each member casts the vote that is meant, or takes it. -/
def takesPart (j : Fin 4) : Bool := ((List.finRange 4).foldlM (afterTurn j) (member j)).isSome

-- Member by member, for an evaluation remembers all that it has come by.
theorem takesPart_all : ∀ j, takesPart j = true
  | 0 => by decide +kernel
  | 1 => by decide +kernel
  | 2 => by decide +kernel
  | 3 => by decide +kernel

theorem exists_inTurn : ∃ n, Path (NetStep .peerRevocation []) (.start member) inTurn n :=
  path_turns (List.nodup_finRange 4) (fun _ _ => rfl) takesPart_all

theorem answers_reached_inTurn : ∃ n, Path (NetStep .peerRevocation []) (.start member) inTurn n ∧
    ((∀ i, AnswersReached (n.subs i) proposal) ↔
      ∃ r, quorumThreshold 4 ≤
        (Finset.univ.filter fun i => (layersOf inTurn).layer i = r).card) := by
  obtain ⟨n, hn⟩ := exists_inTurn
  exact ⟨n, hn, answers_reached_iff (Nat.le_refl 4) mutual_member signaturesVerify_sharedEnv hn
    complete_inTurn asks_proposal⟩

/-- Four substrates, each of which proposes after it has been handed the votes of those before it:
no two votes are in one layer, and nobody answers that the claim is reached. -/
theorem votes_in_turn_never_reach : ∃ n, SignaturesVerify sharedEnv ∧
    Mutual member "peer_revocation" emptyClaim ∧
    Path (NetStep .peerRevocation []) (.start member) inTurn n ∧ Complete inTurn ∧ inTurn.Nodup ∧
    ∀ i, ¬ AnswersReached (n.subs i) proposal := by
  obtain ⟨n, hn⟩ := exists_inTurn
  refine ⟨n, signaturesVerify_sharedEnv, mutual_member, hn, complete_inTurn, by decide,
    fun i hi => ?_⟩
  obtain ⟨r, hr⟩ := (answersReached_iff_layer mutual_member signaturesVerify_sharedEnv hn
    complete_inTurn asks_proposal i).1 hi
  have hone : (Finset.univ.filter fun i => (layersOf inTurn).layer i = r).card ≤ 1 := by
    refine Finset.card_le_one.2 fun i hi j hj => ?_
    have hinj : Function.Injective (layersOf inTurn).layer := by decide
    exact hinj ((Finset.mem_filter.1 hi).2.trans (Finset.mem_filter.1 hj).2.symm)
  have hquorum : quorumThreshold 4 = 3 := rfl
  omega

end

end Myco.Consensus
