import Myco.Consensus.Run

/-!
# Peering within one process

A `PeerStep` is a call that may change the connections, with its answer, or anything else that the
substrate does, which leaves the connections as they are. No two messages have collided.

All that these calls write, apart from the crossing of the floor, is `Federal`: an event of
federation or of immunity. `peered` says which connections a step leaves.
-/

namespace Myco.Consensus

open Myco.Lib Myco.Canonical Myco.Schema Myco.Substrate Myco.Federation

variable {env : Env}

/-! ### What is written -/

/-- An event of federation, or of immunity. -/
def Federal (n : DagNode) : Prop :=
  startsWith "federation_" n.nodeType ∨ startsWith immunePrefix n.nodeType

theorem startsWith_append_of {p q x : String} (h : startsWith p q) : startsWith p (q ++ x) := by
  unfold startsWith at h ⊢
  rw [utf8_append]
  exact h.trans (List.prefix_append _ _)

/-- Barring a collision, only nodes with `P` are appended. -/
theorem barring_emitSubstrateEvent {P : DagNode → Prop} {nodeType : String} {content : Bytes}
    (ht : nodeType ≠ "")
    (h : ∀ n : DagNode, n.nodeType = nodeType → n.content = content → P n) :
    Within (Barring (Adds P)) (emitSubstrateEvent nodeType content : Handler env NodeHash) :=
  fun s r t he => ⟨(emitSubstrateEvent_tip ht he).stays, fun _ =>
    adds_emitSubstrateEvent (fun n hn hc _ => h n hn hc) s r t he⟩

theorem barring_emitImmuneSporocarp {P : DagNode → Prop} {detectorId name evidence : String}
    (h : ∀ n : DagNode, startsWith immunePrefix n.nodeType → P n) :
    Within (Barring (Adds P)) (emitImmuneSporocarp detectorId name evidence :
      Handler env NodeHash) :=
  fun s r t he => ⟨(quiet_emitImmuneSporocarp s r t he).stays, fun _ =>
    adds_emitImmuneSporocarp h s r t he⟩

theorem barring_readClock {P : DagNode → Prop} :
    Within (Barring (Adds P)) (readClock : Handler env Int64) :=
  fun s r t he => ⟨(quiet_readClock s r t he).stays, fun _ => adds_readClock s r t he⟩

theorem ne_of_startsWith_federation {t : String} (h : startsWith "federation_" t) : t ≠ "" := by
  rintro rfl
  exact absurd h (by decide)

theorem federal_emitSubstrateEvent {nodeType : String} {content : Bytes}
    (h : startsWith "federation_" nodeType) :
    Within (Barring (Adds Federal)) (emitSubstrateEvent nodeType content : Handler env NodeHash) :=
  barring_emitSubstrateEvent (ne_of_startsWith_federation h) fun _ hn _ => .inl (hn ▸ h)

theorem federal_immune {detectorId name evidence : String} :
    Within (Barring (Adds Federal)) (emitImmuneSporocarp detectorId name evidence :
      Handler env NodeHash) :=
  barring_emitImmuneSporocarp fun _ => .inr

theorem startsWith_peerPinned {id : Hash32} :
    startsWith "federation_" (federationPeerPinnedNodeType id) :=
  startsWith_append_of (by decide)

theorem federal_emitFederationPeerPinned {id : Hash32} {addr : String} {t : Int64}
    {key : Option Hash32} : Within (Barring (Adds Federal))
      (emitFederationPeerPinned id addr t key : Handler env NodeHash) :=
  federal_emitSubstrateEvent startsWith_peerPinned

theorem federal_emitFederationLegacyPeerPinned {id : Hash32} {addr : String} {t : Int64} :
    Within (Barring (Adds Federal))
      (emitFederationLegacyPeerPinned id addr t : Handler env NodeHash) :=
  federal_emitSubstrateEvent (startsWith_append_of (by decide))

theorem federal_legacyUnless {id : Hash32} {addr : String} {t : Int64} {verified : Bool} :
    Within (Barring (Adds Federal)) (if !verified then do
      let _ ← (emitFederationLegacyPeerPinned id addr t : Handler env NodeHash).attempt
      pure ⟨⟩ else pure ⟨⟩ : Handler env PUnit) := by
  split
  · exact within_bind (within_attempt federal_emitFederationLegacyPeerPinned) fun _ => within_pure
  · exact within_pure

theorem federal_emitPinned {id : Hash32} {addr : String} {now : Int64} {key : Option Hash32}
    {verified : Bool} : Within (Barring (Adds Federal))
      (emitPinned id addr now key verified : Handler env PUnit) :=
  within_bind (within_attempt federal_emitFederationPeerPinned) fun _ => federal_legacyUnless

theorem federal_emitFederationPeerRejected {offered previous : Hash32} {addr reason : String} :
    Within (Barring (Adds Federal))
      (emitFederationPeerRejected offered previous addr reason : Handler env PUnit) :=
  within_bind barring_readClock fun _ =>
    within_bind (within_attempt (federal_emitSubstrateEvent (startsWith_append_of (by decide))))
      fun _ => within_bind (within_attempt federal_immune) fun _ => within_pure

theorem federal_emitFederationHelloSignatureInvalid {id : Hash32} {addr reason : String} :
    Within (Barring (Adds Federal))
      (emitFederationHelloSignatureInvalid id addr reason : Handler env PUnit) :=
  within_bind (within_attempt federal_immune) fun _ => within_pure

theorem federal_emitPollEvent {texts : PollTexts} {own : Hash32} {now : Int64} {e : PollPeerEvent} :
    Within (Barring (Adds Federal)) (emitPollEvent texts own now e : Handler env PUnit) := by
  cases e with
  | pinned id addr tip key verified => exact federal_emitPinned
  | rejectedSelfConnection addr => exact federal_emitFederationPeerRejected
  | rejectedSignatureInvalid id addr reason => exact federal_emitFederationHelloSignatureInvalid
  | failedFrameRead addr reason => exact federal_emitFederationPeerRejected
  | eventsSent id hashes =>
    exact within_bind (within_attempt (federal_emitSubstrateEvent (by decide))) fun _ => within_pure
  | egressBlockedRevoked id addr =>
    exact within_bind (within_attempt federal_immune) fun _ => within_pure
  | rejectedProtocolVersion id addr pv ov =>
    exact within_bind (within_attempt federal_immune) fun _ => within_pure

/-! ### What does not fail -/

theorem succeeds_readClock : Succeeds (readClock : Handler env Int64) :=
  succeeds_bind succeeds_get fun _ => succeeds_bind succeeds_modify fun _ => succeeds_pure

theorem succeeds_attempt_unit {α : Type} {m : Handler env α} :
    Succeeds (m.attempt >>= fun _ => pure ⟨⟩ : Handler env PUnit) :=
  succeeds_bind succeeds_attempt fun _ => succeeds_pure

theorem succeeds_emitPinned {id : Hash32} {addr : String} {now : Int64} {key : Option Hash32}
    {verified : Bool} : Succeeds (emitPinned id addr now key verified : Handler env PUnit) := by
  refine succeeds_bind succeeds_attempt fun _ => ?_
  split
  · exact succeeds_attempt_unit
  · exact succeeds_pure

theorem succeeds_emitFederationPeerRejected {offered previous : Hash32} {addr reason : String} :
    Succeeds (emitFederationPeerRejected offered previous addr reason : Handler env PUnit) :=
  succeeds_bind succeeds_readClock fun _ => succeeds_bind succeeds_attempt fun _ =>
    succeeds_attempt_unit

theorem succeeds_emitPollEvent {texts : PollTexts} {own : Hash32} {now : Int64}
    {e : PollPeerEvent} : Succeeds (emitPollEvent texts own now e : Handler env PUnit) := by
  cases e with
  | pinned id addr tip key verified => exact succeeds_emitPinned
  | rejectedSelfConnection addr => exact succeeds_emitFederationPeerRejected
  | rejectedSignatureInvalid id addr reason => exact succeeds_attempt_unit
  | failedFrameRead addr reason => exact succeeds_emitFederationPeerRejected
  | eventsSent id hashes => exact succeeds_attempt_unit
  | egressBlockedRevoked id addr => exact succeeds_attempt_unit
  | rejectedProtocolVersion id addr pv ov => exact succeeds_attempt_unit

/-! ### The floor in the log -/

/-- What a node says of the floor. -/
def floorMark (n : DagNode) : Option Bool :=
  if n.nodeType = consensusFloorActivatedType then some true
  else if n.nodeType = consensusFloorDeactivatedType then some false
  else none

def floorLog (s : ServerState env) : List Bool := s.nodes.filterMap floorMark

theorem Federal.floorMark {n : DagNode} (h : Federal n) : floorMark n = none := by
  have hne : ∀ t ∈ [consensusFloorActivatedType, consensusFloorDeactivatedType],
      n.nodeType ≠ t := by
    intro t ht
    rcases h with h | h
    · refine ne_of_startsWith h ?_
      revert t
      decide
    · refine ne_of_startsWith h ?_
      revert t
      decide
  rw [Consensus.floorMark, if_neg (hne _ (by simp)), if_neg (hne _ (by simp))]

theorem floorLog_of_adds {s t : ServerState env} (h : Adds Federal s t) : floorLog t = floorLog s := by
  obtain ⟨ns, hn, hns⟩ := h.nodes
  have hnone : ns.filterMap floorMark = [] :=
    List.filterMap_eq_nil_iff.2 fun n hm => (hns n hm).floorMark
  rw [Consensus.floorLog, hn, List.filterMap_append, hnone, List.append_nil, Consensus.floorLog]

/-! ### Steps -/

/-- The calls that may change the connections. -/
def Call.peering : Call → Bool
  | .openListener .. | .closeListener _ | .connectPeer .. | .linkToParent .. | .poll .. | .tick _ =>
    true
  | _ => false

inductive PeerStep : ServerState env → Event → ServerState env → Prop
  | call {s t : ServerState env} {c : Call} {answer : Answer} :
      c.peering → c.run.exec s = some (answer, t) → ¬ Collided t → PeerStep s (.call c answer) t
  | other {s t : ServerState env} : t.federation = s.federation → ownId t = ownId s →
      (∃ ns, t.nodes = s.nodes ++ ns ∧ ∀ n ∈ ns, floorMark n = none) → PeerStep s .other t

abbrev PeerRun : ServerState env → List Event → ServerState env → Prop := Path PeerStep

section

variable {s t : ServerState env} {e : Event}

/-- The connections and the id after a step. -/
theorem PeerStep.peered (h : PeerStep s e t) :
    t.federation = (e.change s).federation ∧ ownId t = ownId s := by
  cases h with
  | call _ h _ => exact ⟨(step_does (.call h)).federation_eq, (step_does (.call h)).ownId_eq⟩
  | other hf hid _ => exact ⟨hf, hid⟩

theorem PeerStep.nodes (h : PeerStep s e t) : ∃ ns, t.nodes = s.nodes ++ ns := by
  cases h with
  | call _ h _ =>
    obtain ⟨ns, hn, -⟩ := (step_does (.call h)).nodes
    exact ⟨ns, hn⟩
  | other _ _ h =>
    obtain ⟨ns, hn, -⟩ := h
    exact ⟨ns, hn⟩

theorem PeerStep.sane (h : PeerStep s e t) (hs : ∀ p ∈ s.federation.peers, p.Sane (ownId s)) :
    ∀ p ∈ t.federation.peers, p.Sane (ownId t) := by
  obtain ⟨hf, hid⟩ := h.peered
  rw [hf, hid]
  exact Event.admitted.sane hs

end

/-! ### Runs of given calls -/

instance (s : ServerState env) : Decidable (Collided s) :=
  inferInstanceAs (Decidable (¬ ∀ m ∈ s.ledger.calls.map (Insertion.node env.blake3),
    ∀ n ∈ s.ledger.calls.map (Insertion.node env.blake3), _ → _ ∧ _))

/-- Makes the calls in turn, unless the process stops or two messages collide. -/
def peerCalls : ServerState env → List Call → Option (List Event × ServerState env)
  | s, [] => some ([], s)
  | s, c :: cs =>
    (c.run.exec s).bind fun (answer, t) =>
      if c.peering ∧ ¬ Collided t then
        (peerCalls t cs).map fun (es, u) => (.call c answer :: es, u)
      else none

theorem peerRun_of_peerCalls {cs : List Call} {s t : ServerState env} {es : List Event}
    (h : peerCalls s cs = some (es, t)) : PeerRun s es t := by
  induction cs generalizing s es with
  | nil =>
    cases h
    exact .nil
  | cons c cs ih =>
    rw [peerCalls, Option.bind_eq_some_iff] at h
    obtain ⟨⟨answer, u⟩, hu, h⟩ := h
    dsimp only at h
    split at h
    · rename_i hc
      obtain ⟨⟨fs, v⟩, hv, h⟩ := Option.map_eq_some_iff.1 h
      cases h
      exact .cons (.call hc.1 hu hc.2) (ih hv)
    · cases h

end Myco.Consensus
