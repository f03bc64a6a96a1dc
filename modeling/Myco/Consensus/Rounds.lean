import Myco.Consensus.Arrivals
import Myco.Consensus.Minted

/-!
# Votes on one claim

What one vote on a claim does to a substrate that counts the votes on it: the claim is certified
there exactly when some round has a quorum (`Settled`), and stays so (`Voting.voted`). A vote of its
own is in the round after the last one that it has seen (`nextRoundId_spec`).
-/

namespace Myco.Consensus

open Myco.Lib Myco.Canonical Myco.Schema Myco.Substrate Myco.Federation

variable {env : Env}

/-- A quorum has voted in this round. -/
def HasQuorum (s : ServerState env) (claimType : String) (ch : Hash32) (round : UInt64) : Prop :=
  quorumThreshold (peerSetSizeN s) ≤
    (tallied s claimType ch round (derivePinnedSignerPubkeys s)).card

/-- The claim is certified just if some round has a quorum. -/
def Settled (s : ServerState env) (claimType : String) (ch : Hash32) : Prop :=
  (findValidQuorumCert s claimType ch).isSome ↔ ∃ round, HasQuorum s claimType ch round

section

variable {s t u : ServerState env} {claimType : String} {ch : Hash32} {round : UInt64}
  {vote : DecodedPopulationVote} {ws : List DagNode}

/-! ### Counting -/

theorem hasQuorum_eq (hn : t.nodes = s.nodes ++ ws) (hp : t.party = s.party)
    (hpin : ∀ w ∈ ws, pinOf w = none) (hvote : ∀ w ∈ ws, voteOf claimType w = none) :
    HasQuorum t claimType ch round ↔ HasQuorum s claimType ch round := by
  rw [HasQuorum, HasQuorum, peerSetSizeN_eq hp, derivePins_append hn hp hpin,
    tallied_append_of_none hn hp hvote]

theorem Settled.plain (h : Settled s claimType ch) (hn : t.nodes = s.nodes ++ ws)
    (hp : t.party = s.party) (hws : ∀ w ∈ ws, Plain w) : Settled t claimType ch := by
  rw [Settled, certs_append hn hp hws]
  refine h.trans (exists_congr fun round => Iff.symm ?_)
  exact hasQuorum_eq hn hp (fun w hw => (hws w hw).pin) fun w hw => (hws w hw).vote _

/-- A vote changes the count of its own round only, and never for the worse. -/
theorem Records.hasQuorum (h : Records s vote u) (hround : round ≠ vote.roundId) :
    HasQuorum u vote.claimType vote.claimHash round ↔
      HasQuorum s vote.claimType vote.claimHash round := by
  obtain ⟨ns, hn, hpins, -⟩ := h.appended
  rw [HasQuorum, HasQuorum, peerSetSizeN_eq h.party, derivePins_append hn h.party hpins, tallied,
    tallied, voteVerifies_eq h.party]
  have hvotes : votesOn u vote.claimType vote.claimHash round =
      votesOn s vote.claimType vote.claimHash round := by
    rcases h.nodes with ⟨-, hu⟩ | ⟨n, hu, hcast⟩
    · rw [votesOn, claimVotes, hu]
      rfl
    · have hvote : voteOf vote.claimType n = some vote := by
        rw [voteOf, if_pos hcast.nodeType, hcast.content]
      rw [votesOn_append hu, List.filterMap_cons_some hvote]
      simp [Ne.symm hround]
  rw [hvotes]

theorem Records.hasQuorum_mono (h : Records s vote u)
    (hs : HasQuorum s vote.claimType vote.claimHash round) :
    HasQuorum u vote.claimType vote.claimHash round := by
  obtain ⟨ns, hn, hpins, -⟩ := h.appended
  rw [HasQuorum] at hs ⊢
  rw [peerSetSizeN_eq h.party, derivePins_append hn h.party hpins]
  refine hs.trans (Finset.card_le_card fun id hid => ?_)
  obtain ⟨v, hv, rfl⟩ := mem_voters.1 hid
  obtain ⟨hv, hver⟩ := List.mem_filter.1 hv
  refine mem_voters.2 ⟨v, List.mem_filter.2 ⟨votesOn_subset hn hv, ?_⟩, rfl⟩
  rw [voteVerifies_eq h.party]
  exact hver

theorem Records.find (h : Records s vote u) :
    (findValidQuorumCert u claimType ch).isSome ↔ (findValidQuorumCert s claimType ch).isSome := by
  obtain ⟨ns, hn, hpins, hcerts⟩ := h.appended
  cases hs : findValidQuorumCert s claimType ch with
  | some x => rw [findValidQuorumCert_mono hn h.party hpins hs]
  | none =>
    rw [find_none_append hn h.party hpins (fun n hm cert hc => ?_) hs]
    rw [hcerts n hm] at hc
    cases hc

/-! ### One vote -/

/-- What a vote on a claim leaves. -/
structure Voted (s : ServerState env) (vote : DecodedPopulationVote) (t : ServerState env) :
    Prop where
  party : t.party = s.party
  pins : derivePinnedSignerPubkeys t = derivePinnedSignerPubkeys s
  filed : Filed t
  settled : Settled t vote.claimType vote.claimHash
  old : ∀ v ∈ claimVotes s vote.claimType vote.claimHash,
    v ∈ claimVotes t vote.claimType vote.claimHash
  new : ∀ v ∈ claimVotes t vote.claimType vote.claimHash,
    v ∈ claimVotes s vote.claimType vote.claimHash ∨ v = vote
  recorded : populationVoteAlreadyRecorded s vote.claimType vote.claimHash vote.roundId
      vote.voterSubstrateId = true ∨ vote ∈ claimVotes t vote.claimType vote.claimHash

theorem Records.claimVotes (h : Records s vote u) :
    (populationVoteAlreadyRecorded s vote.claimType vote.claimHash vote.roundId
        vote.voterSubstrateId = true ∧
      claimVotes u vote.claimType vote.claimHash = claimVotes s vote.claimType vote.claimHash) ∨
    claimVotes u vote.claimType vote.claimHash =
      claimVotes s vote.claimType vote.claimHash ++ [vote] := by
  rcases h.nodes with ⟨hold, hu⟩ | ⟨n, hu, hcast⟩
  · refine .inl ⟨hold, ?_⟩
    rw [Consensus.claimVotes, hu]
    rfl
  · have hvote : voteOf vote.claimType n = some vote := by
      rw [voteOf, if_pos hcast.nodeType, hcast.content]
    refine .inr ?_
    rw [claimVotes_append hu, List.filterMap_cons_some hvote]
    simp

/-- A recheck after a vote settles the claim again. -/
theorem recheck_settled {rc : Option NodeHash} (hrec : Records s vote u) (hf : Filed s)
    (hs : Settled s vote.claimType vote.claimHash)
    (hpay : claimHash env vote.claimPayload = vote.claimHash)
    (h : (recheckVote vote).exec u = some (.ok rc, t)) :
    Settled t vote.claimType vote.claimHash := by
  obtain ⟨hp, ⟨hash, k, hfind, -, rfl⟩ | ⟨hnone, ws, hws, hcases⟩⟩ := recheck_cases h
  · have hfound : (findValidQuorumCert t vote.claimType vote.claimHash).isSome := by rw [hfind]; rfl
    obtain ⟨round, hq⟩ := hs.1 (hrec.find.1 hfound)
    exact iff_of_true hfound ⟨round, hrec.hasQuorum_mono hq⟩
  have hfew : ¬ ∃ round, HasQuorum s vote.claimType vote.claimHash round := by
    intro hq
    have hfound := hrec.find.2 (hs.2 hq)
    rw [hnone] at hfound
    cases hfound
  rcases hcases with ⟨hn, ⟨e, he⟩ | ⟨-, hlt⟩⟩ | ⟨c, hn, -, hm⟩
  · cases he
  · -- too few have voted in the round of the vote, and no other has changed
    refine Settled.plain (iff_of_false ?_ ?_) hn hp hws
    · rw [hnone]
      exact Bool.false_ne_true
    · rintro ⟨round, hq⟩
      by_cases hround : round = vote.roundId
      · subst hround
        exact absurd hq (Nat.not_le.2 hlt)
      · exact hfew ⟨round, (hrec.hasQuorum hround).1 hq⟩
  · have hfound := find_minted (hrec.filed hf) hm hnone hpay hws hn hp
    refine iff_of_true (by rw [hfound]; rfl) ⟨vote.roundId, ?_⟩
    rw [hasQuorum_eq (hn.trans (List.append_assoc _ _ _)) hp]
    · exact hm.quorum
    · intro w hw
      rcases List.mem_append.1 hw with hw | hw
      · exact (hws w hw).pin
      · rw [List.mem_singleton.1 hw]
        exact hm.pinOf_eq
    · intro w hw
      rcases List.mem_append.1 hw with hw | hw
      · exact (hws w hw).vote _
      · rw [List.mem_singleton.1 hw]
        exact hm.voteOf_eq _

theorem Voting.voted {rc : Option NodeHash} (h : Voting s vote (.ok rc) t) (hf : Filed s)
    (hs : Settled s vote.claimType vote.claimHash)
    (hpay : claimHash env vote.claimPayload = vote.claimHash) : Voted s vote t := by
  cases h with
  | @rechecked u _ _ hrec hre =>
    obtain ⟨hp, ns, hn, hns⟩ := recheck_logged hre
    obtain ⟨ns', hn', hpins', -⟩ := hrec.appended
    have hvotes : claimVotes t vote.claimType vote.claimHash =
        claimVotes u vote.claimType vote.claimHash := by
      rw [claimVotes_append hn, List.filterMap_eq_nil_iff.2 fun n hm => (hns n hm).2 _]
      exact List.append_nil _
    constructor
    · exact hp.trans hrec.party
    · rw [derivePins_append hn hp fun n hm => (hns n hm).1, derivePins_append hn' hrec.party hpins']
    · intro n hm ct v hv
      rw [hn] at hm
      rcases List.mem_append.1 hm with hm | hm
      · exact hrec.filed hf n hm ct v hv
      · rw [(hns n hm).2] at hv
        cases hv
    · exact recheck_settled hrec hf hs hpay hre
    · intro v hv
      rw [hvotes]
      rcases hrec.claimVotes with ⟨-, heq⟩ | heq
      · rwa [heq]
      · rw [heq]
        exact List.mem_append_left _ hv
    · intro v hv
      rw [hvotes] at hv
      rcases hrec.claimVotes with ⟨-, heq⟩ | heq
      · rw [heq] at hv
        exact .inl hv
      · rw [heq] at hv
        exact (List.mem_append.1 hv).imp_right List.mem_singleton.1
    · rw [hvotes]
      rcases hrec.claimVotes with ⟨hold, -⟩ | heq
      · exact .inl hold
      · rw [heq]
        exact .inr (List.mem_append_right _ List.mem_cons_self)

/-! ### The next round -/

theorem max_uint64_cases (a b : UInt64) : max a b = a ∧ b ≤ a ∨ max a b = b ∧ a ≤ b := by
  by_cases h : a ≤ b
  · exact .inr ⟨if_pos h, h⟩
  · exact .inl ⟨if_neg h, UInt64.le_of_lt (UInt64.not_le.1 h)⟩

/-- The loop keeps the largest round. -/
theorem foldl_max {vs : List DecodedPopulationVote} {m : UInt64} :
    ∃ r, vs.foldl (fun m v => some (m.elim v.roundId (max · v.roundId))) (some m) = some r ∧
      (r = m ∨ ∃ v ∈ vs, v.roundId = r) ∧ m ≤ r ∧ ∀ v ∈ vs, v.roundId ≤ r := by
  induction vs generalizing m with
  | nil => exact ⟨m, rfl, .inl rfl, UInt64.le_refl m, by simp⟩
  | cons v vs ih =>
    obtain ⟨r, hr, hmem, hle, hall⟩ := @ih (max m v.roundId)
    have hmax : m ≤ r ∧ v.roundId ≤ r := by
      rcases max_uint64_cases m v.roundId with ⟨heq, h⟩ | ⟨heq, h⟩
      · rw [heq] at hle
        exact ⟨hle, UInt64.le_trans h hle⟩
      · rw [heq] at hle
        exact ⟨UInt64.le_trans h hle, hle⟩
    refine ⟨r, hr, ?_, hmax.1, ?_⟩
    · rcases hmem with rfl | ⟨w, hw, rfl⟩
      · rcases max_uint64_cases m v.roundId with ⟨heq, -⟩ | ⟨heq, -⟩
        · exact .inl heq
        · exact .inr ⟨v, List.mem_cons_self, heq.symm⟩
      · exact .inr ⟨w, List.mem_cons_of_mem _ hw, rfl⟩
    · intro w hw
      rcases List.mem_cons.1 hw with rfl | hw
      · exact hmax.2
      · exact hall w hw

/-- The loop of `next_round_id` finds the largest round, if there is a vote. -/
theorem maxRound_cases (vs : List DecodedPopulationVote) :
    (vs = [] ∧ vs.foldl (fun m v => some (m.elim v.roundId (max · v.roundId))) none = none) ∨
    ∃ w ∈ vs, vs.foldl (fun m v => some (m.elim v.roundId (max · v.roundId))) none =
      some w.roundId ∧ ∀ v ∈ vs, v.roundId ≤ w.roundId := by
  cases vs with
  | nil => exact .inl ⟨rfl, rfl⟩
  | cons v vs =>
    obtain ⟨r, hr, hmem, hle, hall⟩ := @foldl_max vs v.roundId
    have hlast : ∀ w ∈ v :: vs, w.roundId ≤ r := by
      intro w hw
      rcases List.mem_cons.1 hw with rfl | hw
      · exact hle
      · exact hall w hw
    rcases hmem with rfl | ⟨w, hw, rfl⟩
    · exact .inr ⟨v, List.mem_cons_self, hr, hlast⟩
    · exact .inr ⟨w, List.mem_cons_of_mem _ hw, hr, hlast⟩

/-- The first vote on a claim is in round 0, and a later one in the round after the last. -/
theorem nextRoundId_spec :
    (claimVotes s claimType ch = [] ∧ nextRoundId s claimType ch = 0) ∨
    ∃ v ∈ claimVotes s claimType ch, nextRoundId s claimType ch = v.roundId + 1 ∧
      ∀ w ∈ claimVotes s claimType ch, w.roundId ≤ v.roundId := by
  unfold nextRoundId
  rcases maxRound_cases (claimVotes s claimType ch) with ⟨hnil, hnone⟩ | ⟨w, hw, hmax, hlast⟩
  · rw [hnone]
    exact .inl ⟨hnil, rfl⟩
  · rw [hmax]
    exact .inr ⟨w, hw, rfl, hlast⟩

end

end Myco.Consensus
