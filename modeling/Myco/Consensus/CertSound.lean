import Myco.Consensus.Tally

/-!
# What a certificate vouches for

The gate takes the claim's hash and type from its caller, and compares the hash with the body of a
certificate but the type only with the node's: the message that each signature must verify on is
rebuilt from the body. So the gate answers for the claim that it was asked about exactly when the
body of the first certificate that passes has the type asked for (`certificate_sound_iff`). A node
of one type whose body is a certificate of another authorises what nobody has voted for
(`certificate_of_another_class`).
-/

namespace Myco.Consensus

open Myco.Lib Myco.Canonical Myco.Schema Myco.Substrate Myco.Federation

variable {env : Env}

/-- `pk` is the key of `id` here: this substrate's own, or the pinned one of a peer that is not
revoked. -/
def KeyOf (s : ServerState env) (id pk : Hash32) : Prop :=
  (id = ownId s ∧ pk = substrateSigningPubkey s) ∨
  (id ≠ ownId s ∧ id ∉ s.revokedFederationPeers ∧
    OrdMap.get id (derivePinnedSignerPubkeys s) = some pk)

/-- The entry is signed as a vote for this claim in this round. -/
def SignsFor (s : ServerState env) (claimType : String) (claimHash : Hash32) (round : UInt64)
    (v : CertPeerVote) : Prop :=
  ∃ pk, KeyOf s v.peerSubstrateId pk ∧ env.signatures.verifySignature pk v.peerSignature
    (buildPopulationVoteSigningMessage claimType claimHash v.peerSubstrateId round
      v.peerDagTipAtVote)

/-- The entries that the gate counts. -/
def countedEntries (s : ServerState env) (cert : DecodedQuorumCert) : List CertPeerVote :=
  cert.peerVotes.filter
    (entryVerifies env cert (resolvePubkey s (derivePinnedSignerPubkeys s)))

/-- The log has the certificate `h`, and in these of its entries a quorum of distinct voters votes
for this claim in one round. -/
def Authorised (s : ServerState env) (claimType : String) (claimHash : Hash32)
    (entries : DecodedQuorumCert → List CertPeerVote) (h : NodeHash) : Prop :=
  ∃ node ∈ s.nodes, node.hash = h ∧
    ∃ cert, decodePopulationConsensusReached node.content = some cert ∧
      ∃ (round : UInt64) (ids : Finset Hash32), quorumThreshold (peerSetSizeN s) ≤ ids.card ∧
        ∀ id ∈ ids, ∃ v ∈ entries cert, v.peerSubstrateId = id ∧
          SignsFor s claimType claimHash round v

/-- The first node that passes has a body of the type asked for. -/
def FirstIsTyped (s : ServerState env) (claimType : String) (claimHash : Hash32) : Prop :=
  ∀ xs node ys cert n, s.nodes = xs ++ node :: ys →
    (∀ m ∈ xs, ∀ c k, ¬ Passes s claimType claimHash m c k) →
    Passes s claimType claimHash node cert n → cert.claimType = claimType

section

variable {s : ServerState env} {claimType : String} {ch : Hash32} {cert : DecodedQuorumCert}
  {node : DagNode} {n : Nat}

theorem resolvePubkey_eq_some {id pk : Hash32} :
    resolvePubkey s (derivePinnedSignerPubkeys s) id = some pk ↔ KeyOf s id pk := by
  unfold resolvePubkey KeyOf
  by_cases hid : id = ownId s
  · rw [if_pos hid]
    constructor
    · intro h
      cases h
      exact .inl ⟨hid, rfl⟩
    · rintro (⟨-, rfl⟩ | ⟨h, -⟩)
      · rfl
      · exact absurd hid h
  · rw [if_neg hid]
    constructor
    · exact fun h => .inr ⟨hid, notMem_revoked_of_pin h, h⟩
    · rintro (⟨h, -⟩ | ⟨-, -, h⟩)
      · exact absurd h hid
      · exact h

theorem entryVerifies_iff {v : CertPeerVote} :
    entryVerifies env cert (resolvePubkey s (derivePinnedSignerPubkeys s)) v ↔
      SignsFor s cert.claimType cert.claimHash cert.roundId v := by
  simp only [entryVerifies, Option.any_eq_true, resolvePubkey_eq_some, SignsFor]
  rfl

/-- The voters that the gate counted vote for the claim that the body names. -/
theorem authorised_of_passes (hn : node ∈ s.nodes) (hp : Passes s claimType ch node cert n)
    (ht : cert.claimType = claimType) :
    Authorised s claimType ch (countedEntries s) node.hash := by
  obtain ⟨-, hd, hh⟩ := certOn_eq_some.1 hp.1
  obtain ⟨-, -, hle, hcard⟩ := certAccepted_eq_some.1 hp.2
  refine ⟨node, hn, rfl, cert, hd, cert.roundId, _, hle.trans hcard.ge, fun id hid => ?_⟩
  obtain ⟨v, hv, rfl⟩ := mem_voters.1 hid
  refine ⟨v, hv, rfl, ?_⟩
  rw [← ht, ← hh]
  exact entryVerifies_iff.1 (List.mem_filter.1 hv).2

/-- An entry whose signature verifies on one message only is signed for one claim only. -/
theorem claimType_of_signsFor {ct ct' : String} {ch' : Hash32} {round round' : UInt64}
    {v : CertPeerVote} (hct : (utf8 ct).length < 2 ^ 64) (hct' : (utf8 ct').length < 2 ^ 64)
    (hbind : ∀ pk m m', env.signatures.verifySignature pk v.peerSignature m →
      env.signatures.verifySignature pk v.peerSignature m' → m = m')
    (h : SignsFor s ct ch round v) (h' : SignsFor s ct' ch' round' v) : ct = ct' := by
  obtain ⟨pk, hk, hsig⟩ := h
  obtain ⟨pk', hk', hsig'⟩ := h'
  cases Option.some.inj ((resolvePubkey_eq_some.2 hk).symm.trans (resolvePubkey_eq_some.2 hk'))
  exact (signingMessage_inj hct hct' (hbind pk _ _ hsig hsig')).1

theorem length_lt_of_isizeMax {k : Nat} (h : k ≤ isizeMax) : k < 2 ^ 64 := by
  simp only [isizeMax] at h
  omega

end

/-- Where no signature of a certificate verifies on two messages, an answer of the gate means that
a quorum has voted for exactly this claim if and only if the first certificate that passes has a
body of the type asked for. -/
theorem certificate_sound_iff (s : ServerState env) (claimType : String) (claimHash : Hash32)
    (hct : (utf8 claimType).length ≤ isizeMax)
    (hbind : ∀ node ∈ s.nodes, ∀ cert, certOn claimType claimHash node = some cert →
      ∀ v ∈ cert.peerVotes, ∀ pk m m', env.signatures.verifySignature pk v.peerSignature m →
        env.signatures.verifySignature pk v.peerSignature m' → m = m') :
    (∀ h n, findValidQuorumCert s claimType claimHash = some (h, n) →
      Authorised s claimType claimHash (countedEntries s) h) ↔ FirstIsTyped s claimType claimHash := by
  constructor
  · intro hall xs node ys cert n hs hxs hp
    have hn : node ∈ s.nodes := by simp [hs]
    obtain ⟨node', hn', hh, cert', hd', round, ids, hcard, hids⟩ :=
      hall _ n (findValidQuorumCert_eq_some.2 ⟨xs, node, ys, cert, hs, hxs, hp, rfl⟩)
    obtain rfl : node' = node := eq_of_key_eq s.ledger.recorded.nodup hn' hn hh
    obtain ⟨-, hd, -⟩ := certOn_eq_some.1 hp.1
    cases hd.symm.trans hd'
    have hpos : 0 < ids.card := (quorumThreshold_pos (Nat.succ_pos _)).trans_le hcard
    obtain ⟨id, hid⟩ := Finset.card_pos.1 hpos
    obtain ⟨v, hv, -, hsigns⟩ := hids id hid
    obtain ⟨hmem, hver⟩ := List.mem_filter.1 hv
    exact claimType_of_signsFor (claimType_fits_cert hd) (length_lt_of_isizeMax hct)
      (hbind _ hn cert hp.1 v hmem) (entryVerifies_iff.1 hver) hsigns
  · intro htyped h n hf
    obtain ⟨xs, node, ys, cert, hs, hxs, hp, rfl⟩ := findValidQuorumCert_eq_some.1 hf
    exact authorised_of_passes (by simp [hs]) hp (htyped xs node ys cert n hs hxs hp)

/-! ### A certificate of another class -/

def junkMessage : Bytes :=
  buildPopulationVoteSigningMessage "universal_junk_classification" (.replicate 0) (.replicate 0)
    0 (.replicate 0)

/-- A substrate with no peers certifies that something is junk. -/
def junkCert : DecodedQuorumCert :=
  certOf "universal_junk_classification" (.replicate 0) [] 0 1 0
    [⟨.replicate 0, signatureNo 0, .replicate 0⟩]

/-- It stands in the log under the type of a class. -/
def filedUnder (claimType : String) : ServerState (signingEnv [junkMessage]) :=
  stateOf _ [⟨[], populationConsensusReachedNodeType claimType, 0,
    encodePopulationConsensusReached junkCert 0⟩]

theorem signingEnv_one {m : Bytes} {pk : Hash32} {sig : Signature} {m' : Bytes}
    (h : (signingEnv [m]).signatures.verifySignature pk sig m') : m' = m := by
  simp only [signingEnv, decide_eq_true_eq] at h
  exact List.mem_singleton.1 (List.mem_of_getElem? h)

theorem certificate_sound_filed :
    (∀ h n, findValidQuorumCert (filedUnder "universal_junk_classification")
        "universal_junk_classification" (.replicate 0) = some (h, n) →
      Authorised (filedUnder "universal_junk_classification") "universal_junk_classification"
        (.replicate 0) (countedEntries (filedUnder "universal_junk_classification")) h) ↔
      FirstIsTyped (filedUnder "universal_junk_classification") "universal_junk_classification"
        (.replicate 0) := by
  refine certificate_sound_iff _ _ _ (by decide) ?_
  intro node _ cert _ v _ pk m m' h h'
  exact (signingEnv_one h).trans (signingEnv_one h').symm

/-- Filed under another class, it authorises a revocation that nobody has voted for. -/
theorem certificate_of_another_class :
    ¬ ∀ (env : Env) (s : ServerState env) (claimType : String) (claimHash : Hash32),
      (utf8 claimType).length ≤ isizeMax → ∀ h n,
      findValidQuorumCert s claimType claimHash = some (h, n) →
      Authorised s claimType claimHash DecodedQuorumCert.peerVotes h := by
  intro hall
  have hfound : (findValidQuorumCert (filedUnder "peer_revocation") "peer_revocation"
      (.replicate 0)).isSome := by decide +kernel
  obtain ⟨⟨h, n⟩, hf⟩ := Option.isSome_iff_exists.1 hfound
  obtain ⟨-, -, -, cert, -, round, ids, hcard, hids⟩ :=
    hall _ _ _ _ (by decide) h n hf
  have hpos : 0 < ids.card := (quorumThreshold_pos (Nat.succ_pos _)).trans_le hcard
  obtain ⟨id, hid⟩ := Finset.card_pos.1 hpos
  obtain ⟨v, -, -, pk, -, hsig⟩ := hids id hid
  have hct := (signingMessage_inj (by decide) (by decide) (signingEnv_one hsig)).1
  exact absurd hct (by decide)

end Myco.Consensus
