import Myco.Consensus.Pins
import Myco.Federation.Pull
import Myco.Substrate.Absorption
import Myco.Substrate.Plates

/-!
# What a peer cannot touch

Whatever a peer answers to a pull, the substrate derives the same state from its log afterwards as
before, and the pins, the revoked peers, the tallies, the certificates, the plate index and the
material to be absorbed are the same (`pull_private`).
-/

namespace Myco.Federation

open Myco.Lib Myco.Canonical Myco.Schema Myco.Substrate Myco.Consensus Myco.Prune

variable {env : Env}

/-- No text starts with one of the prefixes of what a pull appends and with `q` as well. -/
def PullApart (q : String) : Prop :=
  Apart federationReceivedPrefix q ∧ Apart federationEventsReceivedType q ∧ Apart immunePrefix q

instance (q : String) : Decidable (PullApart q) := inferInstanceAs (Decidable (_ ∧ _ ∧ _))

theorem PullType.not_startsWith {t q : String} (h : PullType t) (hq : PullApart q) :
    ¬ startsWith q t := by
  rcases h with h | rfl | h
  · exact Lib.not_startsWith h hq.1
  · exact Lib.not_startsWith (p := federationEventsReceivedType) (by simp [startsWith]) hq.2.1
  · exact Lib.not_startsWith h hq.2.2

theorem PullType.ne {t q : String} (h : PullType t) (hq : PullApart q) : t ≠ q := by
  rintro rfl
  exact h.not_startsWith hq (by simp [startsWith])

theorem PullType.pureRecord {t : String} (h : PullType t) : family t = .pureRecord := by
  rcases h with h | rfl | h
  · exact family_pureRecord h (by decide)
  · decide
  · exact family_pureRecord h (by decide)

theorem PullType.plain {n : DagNode} (h : PullType n.nodeType) : Plain n := by
  rcases h with h | h | h
  · exact plain_of_startsWith h (by unfold PlainPrefix; decide)
  · exact plain_of_type h (by unfold PlainPrefix; decide)
  · exact plain_immune h

/-- What the substrate keeps to itself is the same in both states. -/
structure SamePrivate (s t : ServerState env) : Prop where
  derived : fromDag t.ledger.dag = fromDag s.ledger.dag
  live : t.live = s.live
  pins : derivePinnedSignerPubkeys t = derivePinnedSignerPubkeys s
  connections : t.federation = s.federation
  revoked : t.revokedFederationPeers = s.revokedFederationPeers
  revokedLogged : deriveRevokedFederationPeersFromDag t.nodes =
    deriveRevokedFederationPeersFromDag s.nodes
  tally : ∀ claimType ch round pins,
    tallyVotes t claimType ch round pins = tallyVotes s claimType ch round pins
  certified : ∀ claimType ch, findValidQuorumCert t claimType ch =
    findValidQuorumCert s claimType ch
  plates : plateIndex t.nodes = plateIndex s.nodes
  absorption : pendingAbsorptionHashes t = pendingAbsorptionHashes s

theorem certs_append {s t : ServerState env} {ws : List DagNode} (hn : t.nodes = s.nodes ++ ws)
    (hp : t.party = s.party) (h : ∀ w ∈ ws, Plain w) {claimType : String} {ch : Hash32} :
    findValidQuorumCert t claimType ch = findValidQuorumCert s claimType ch := by
  have hpins := derivePins_append hn hp fun w hw => (h w hw).pin
  unfold findValidQuorumCert
  rw [hn, hpins, peerSetSizeN_eq hp, List.findSome?_append]
  have hnone : ws.findSome? (fun node => (certOn claimType ch node).bind fun cert =>
      (certAccepted t (derivePinnedSignerPubkeys s) (quorumThreshold (peerSetSizeN s)) cert).map
        fun n => (node.hash, n)) = none := by
    refine List.findSome?_eq_none_iff.2 fun w hw => ?_
    rw [(h w hw).cert]
    rfl
  rw [hnone, Option.or_none]
  simp only [certAccepted_eq hp]

/-- Whatever nodes of the types of a pull are appended on the tip, the rest stays private. -/
theorem samePrivate_of_extends {s t : ServerState env} (hs : ∀ n ∈ s.nodes, AbsorbsParents n)
    (h : Extends PullType s t) : SamePrivate s t := by
  obtain ⟨ws, hn, hws⟩ := h.log.exists_forall
  have hkind : ∀ w ∈ ws, PullType w.nodeType := fun w hw => (hws w hw).elim fun _ hl => hl.kind
  have hplain : ∀ w ∈ ws, Plain w := fun w hw => (hkind w hw).plain
  refine ⟨?_, h.live, ?_, federation_eq h.party, revoked_eq h.party, ?_, ?_, ?_, ?_, ?_⟩
  · have hr := t.ledger.recorded
    have ht : t.ledger.nodes = s.ledger.nodes ++ ws := hn
    rw [t.ledger.dag_eq, s.ledger.dag_eq, ht]
    rw [ht] at hr
    exact fromDag_append hr hs fun w hw => (hkind w hw).pureRecord
  · exact derivePins_append hn h.party fun w hw => (hplain w hw).pin
  · have hnone : ws.filterMap revocationOf = [] := by
      refine List.filterMap_eq_nil_iff.2 fun w hw => ?_
      rw [revocationOf, if_neg ((hkind w hw).not_startsWith (by decide))]
    rw [deriveRevokedFederationPeersFromDag, hn, List.filterMap_append, hnone, List.append_nil]
    rfl
  · intro claimType ch round pins
    have hvote : ∀ w ∈ ws, voteOf claimType w = none := fun w hw => (hplain w hw).vote claimType
    rw [tallyVotes, tallied_append_of_none hn h.party hvote, votesOn_append_of_none hn hvote]
    rfl
  · exact fun claimType ch => certs_append hn h.party hplain
  · rw [hn]
    exact plateIndex_append fun w hw => (hkind w hw).not_startsWith (by decide)
  · have hcycle : t.lastAbsorbedCycle = s.lastAbsorbedCycle :=
      congrArg Live.lastAbsorbedCycle h.live
    have hnone : ws.filter (fun n => startsWith rawMaterialPrefix n.nodeType ∧
        s.lastAbsorbedCycle.all (· < n.createdAtCycle)) = [] := by
      refine List.filter_eq_nil_iff.2 fun w hw => ?_
      have := (hkind w hw).not_startsWith (q := rawMaterialPrefix) (by decide)
      simp [this]
    rw [pendingAbsorptionHashes, hn, hcycle, List.filter_append, hnone, List.append_nil]
    rfl

/-- A pull appends wrappers, its marker and immune events, each on the tip, and touches nothing that
the substrate keeps to itself. -/
theorem pull_private {s t : ServerState env} {wire : PullWire} {request : Message}
    {r : Except SubstrateError (Option Message)} (hs : Grown s)
    (h : (handleFederationPullEventsFromPeer wire request).exec s = some (r, t)) :
    Grows (OnTip PullType) s.nodes t.nodes ∧ SamePrivate s t := by
  have he := extends_pull s r t h
  exact ⟨he.log, samePrivate_of_extends hs.absorbsParents he⟩

/-! ### A batch of two events -/

theorem grown_of_nodes {s : ServerState env} (h : ∀ n ∈ s.nodes, family n.nodeType ≠ .absorption) :
    Grown s := by
  have hn : s.nodes = (stateOf env []).nodes ++ s.nodes := rfl
  exact ⟨stateOf env [], rfl, .single (.other hn h)⟩

/-- The peer answers with this batch. -/
def answering (events : List EventForFederation) : PullWire where
  readTimeout := .ok ()
  requestWritten _ := .ok ()
  responseRead m := .ok (some ⟨"fed_event_batch", m.requestId, buildEventBatchPayload events true⟩)

def pullFrom (id : Hash32) : Message :=
  ⟨"federation_pull_events_from_peer", 4, [("peer_substrate_id", hashValue id)]⟩

/-- Material, and an event that would set the cycle counter. -/
def offered : List EventForFederation :=
  [⟨[], "raw_material:text", 0, [1]⟩, ⟨[], cycleAdvancedType, 9, encodeCycleAdvanced 0 9⟩]

theorem pull_private_offered : ∃ ds r, ∃ u t : ServerState twoKeysEnv,
    Run (stateOf twoKeysEnv []) ds u ∧
    (handleFederationPullEventsFromPeer (answering offered) (pullFrom peerId)).exec u =
      some (r, t) ∧
    t.nodes.length = u.nodes.length + 3 ∧ Grows (OnTip PullType) u.nodes t.nodes ∧
      SamePrivate u t := by
  have h : (runCalls (stateOf twoKeysEnv []) [listening, greeting (helloUnder oldKey 0)]).any
      (fun p => p.2.nodes.all (fun n => family n.nodeType ≠ .absorption) &&
        ((handleFederationPullEventsFromPeer (answering offered) (pullFrom peerId)).exec p.2).any
          fun q => q.2.nodes.length = p.2.nodes.length + 3) = true := by
    decide +kernel
  obtain ⟨⟨ds, u⟩, hrun, hu⟩ := (Option.any_eq_true _ _).1 h
  rw [Bool.and_eq_true] at hu
  obtain ⟨⟨r, t⟩, hpull, hlen⟩ := (Option.any_eq_true _ _).1 hu.2
  have hgrown : Grown u := grown_of_nodes fun n hn => by simpa using List.all_eq_true.1 hu.1 n hn
  exact ⟨ds, r, u, t, run_of_runCalls hrun, hpull, by simpa using hlen, pull_private hgrown hpull⟩

end Myco.Federation
