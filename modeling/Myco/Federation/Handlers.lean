import Myco.Consensus.Floor
import Myco.Federation.Admissions

/-!
# The handlers of federation

`handle_federation_open_listener`, `handle_federation_close_listener`, `handle_federation_poll`,
`handle_federation_connect_peer`, `handle_federation_link_to_parent_from_hint` and the functions that
they emit through (`substrate/src/federation/handlers.rs`), and what an autonomous tick does about
federation (`substrate/src/server/autonomous.rs`).

A handler first lets the connections change and then writes to the log. `Pins` is what it may
write: a pin only for a peer that it has admitted, with the key that was admitted.
-/

namespace Myco.Federation

open Myco.Lib Myco.Canonical Myco.Schema Myco.Substrate Myco.Consensus

variable {env : Env}

/-! ### What is emitted -/

def emitFederationPeerPinned (peerSubstrateId : Hash32) (remoteAddr : String)
    (firstPinnedUnixNs : Int64) (signerPubkey : Option Hash32) : Handler env NodeHash :=
  emitSubstrateEvent (federationPeerPinnedNodeType peerSubstrateId)
    (encodeFederationPeerPinned peerSubstrateId remoteAddr firstPinnedUnixNs signerPubkey)

def emitFederationLegacyPeerPinned (peerSubstrateId : Hash32) (remoteAddr : String)
    (firstPinnedUnixNs : Int64) : Handler env NodeHash :=
  emitSubstrateEvent (federationLegacyPeerPinnedNodeType peerSubstrateId)
    (encodeFederationLegacyPeerPinned peerSubstrateId remoteAddr firstPinnedUnixNs)

def hexFirst8Bytes (h : Hash32) : String := hexPrefix h.bytes 8

def emitFederationHelloSignatureInvalid (peerSubstrateId : Hash32) (remoteAddr reason : String) :
    Handler env PUnit := do
  let _ ← (emitImmuneSporocarp "C39_federation_hello_signature_invalid"
    "federation_hello_signature_invalid"
    s!"fed_hello signature verification failed: peer_id_prefix={
      hexFirst8Bytes peerSubstrateId} remote={remoteAddr} reason={reason}" :
        Handler env NodeHash).attempt

def emitFederationPeerRejected (offeredSubstrateId previouslyPinnedSubstrateId : Hash32)
    (remoteAddr reason : String) : Handler env PUnit := do
  let rejectedAtUnixNs ← readClock
  let _ ← (emitSubstrateEvent (federationPeerRejectedNodeType offeredSubstrateId)
    (encodeFederationPeerRejected offeredSubstrateId previouslyPinnedSubstrateId remoteAddr
      rejectedAtUnixNs reason) : Handler env NodeHash).attempt
  let _ ← (emitImmuneSporocarp "C33_federation_peer_identity_mismatch"
    "federation_identity_mismatch_detected"
    s!"federation_peer_rejected: offered_id_prefix={hexFirst8Bytes offeredSubstrateId} reason={
      reason}" : Handler env NodeHash).attempt

/-- The pin, and for a peer without a signature the observation that it has none. -/
def emitPinned (peerSubstrateId : Hash32) (remoteAddr : String) (now : Int64)
    (signerPubkey : Option Hash32) (signatureVerified : Bool) : Handler env PUnit := do
  let _ ← (emitFederationPeerPinned peerSubstrateId remoteAddr now signerPubkey :
    Handler env NodeHash).attempt
  if !signatureVerified then
    let _ ← (emitFederationLegacyPeerPinned peerSubstrateId remoteAddr now :
      Handler env NodeHash).attempt

/-- Where the texts of a poll and of a tick differ. -/
structure PollTexts where
  selfConnection : String
  frameFailure : String → String
  versionSuffix : String
  egressPeer : Hash32 → String
  egressSuffix : String

def operatorPoll : PollTexts where
  selfConnection := "inbound peer claimed our own substrate_id (self-connection)"
  frameFailure reason := s!"frame read failure: {reason}"
  versionSuffix := ""
  egressPeer := hexFirst8Bytes
  egressSuffix := "(L1/GOVERNANCE §5.2)"

def autonomousTick : PollTexts where
  selfConnection := "inbound peer claimed our own substrate_id (autonomous tick)"
  frameFailure reason := s!"autonomous tick frame read failure: {reason}"
  versionSuffix := " (autonomous tick)"
  egressPeer h := hexEncode h.bytes
  egressSuffix := "(L1/GOVERNANCE §5.2, autonomous tick)"

/-- One turn of the loop over the events of a poll. -/
def emitPollEvent (texts : PollTexts) (ourSubstrateId : Hash32) (now : Int64) :
    PollPeerEvent → Handler env PUnit
  | .pinned id addr _ key verified => emitPinned id addr now key verified
  | .rejectedSelfConnection addr =>
    emitFederationPeerRejected ourSubstrateId ourSubstrateId addr texts.selfConnection
  | .rejectedSignatureInvalid id addr reason => emitFederationHelloSignatureInvalid id addr reason
  | .failedFrameRead addr reason =>
    emitFederationPeerRejected (.replicate 0) ourSubstrateId addr (texts.frameFailure reason)
  | .eventsSent id hashes => do
    let _ ← (emitSubstrateEvent federationEventsSentType (encodeFederationEventsSent id hashes now) :
      Handler env NodeHash).attempt
  | .rejectedProtocolVersion id addr peerVersion ourVersion => do
    let _ ← (emitImmuneSporocarp "C61_federation_protocol_version_mismatch"
      "federation_protocol_version_mismatch"
      s!"federation protocol version mismatch at fed_hello: peer.substrate_id={
        hexEncode id.bytes} from {addr} declared protocol_version={peerVersion}, our version={
        ourVersion}{texts.versionSuffix}" : Handler env NodeHash).attempt
  | .egressBlockedRevoked id addr => do
    let _ ← (emitImmuneSporocarp "C13_peer_attestation_revoked_egress"
      "peer_attestation_revoked_egress"
      s!"federation_egress_blocked: outbound FED_EVENT_BATCH to peer {
        texts.egressPeer id} (remote={
        addr}) suppressed pre-emission — peer is on the owner-revocation list {
        texts.egressSuffix}" : Handler env NodeHash).attempt

/-! ### The handlers -/

def setFederation (f : FederationState) (s : ServerState env) : ServerState env :=
  { s with federation := f }

def respond (messageType : String) (request : Message) (payload : List (String × Value)) :
    Option Message :=
  some ⟨messageType, request.requestId, OrdMap.ofList utf8 payload⟩

def openListener (bound : Except SubstrateError FederationListener) :
    Handler env FederationListener := do
  let s ← get
  let (outcome, f) := s.federation.openListener bound
  modify (setFederation f)
  match outcome with
  | .error e => throw e
  | .ok l => pure l

def handleFederationOpenListener (bound : Except SubstrateError FederationListener)
    (request : Message) : Handler env (Option Message) := do
  match string? request.payload "bind_addr" with
  | none | some "" =>
    throw (.protocol "federation_open_listener: bind_addr must be non-empty String")
  | some _ =>
    let l ← openListener bound
    let eventHash ← emitSubstrateEvent federationListenerOpenedType
      (encodeFederationListenerOpened l.bindAddr l.openedAtUnixNs)
    pure (respond "federation_open_listener_response" request
      [("bind_addr", .string l.bindAddr), ("listener_opened_event_hash", hashValue eventHash)])

def closeListener : Handler env (Option FederationListener) := do
  let s ← get
  let (prior, f) := s.federation.closeListener
  modify (setFederation f)
  pure prior

def handleFederationCloseListener (request : Message) : Handler env (Option Message) := do
  match ← closeListener with
  | none =>
    pure (respond "federation_close_listener_response" request
      [("was_listening", .bool false), ("prior_bind_addr", .string "")])
  | some l =>
    let closedAtUnixNs ← readClock
    let eventHash ← emitSubstrateEvent federationListenerClosedType
      (encodeFederationListenerClosed l.bindAddr closedAtUnixNs)
    pure (respond "federation_close_listener_response" request
      [("was_listening", .bool true), ("prior_bind_addr", .string l.bindAddr),
        ("listener_closed_event_hash", hashValue eventHash)])

/-- Revokes a peer, unless it is revoked. -/
def emitFederationPeerRevoked (r : Revocation) : Handler env (Option NodeHash) := do
  let s ← get
  if r.revokedPeerSubstrateId ∈ s.revokedFederationPeers then pure none
  else
    let hash ← emitSubstrateEvent (federationPeerRevokedNodeType r.revokedPeerSubstrateId)
      (encodeFederationPeerRevoked r)
    modify fun s => { s with
      revokedFederationPeers := r.revokedPeerSubstrateId :: s.revokedFederationPeers }
    pure (some hash)

/-- What a poll finds: who has connected, and what the sockets hold. -/
structure PollInput where
  accepted : FederationState.Accepted
  sockets : FederationState.Sockets

/-- The connections after the sockets have been served, and what happened. -/
def serve (s : ServerState env) (input : PollInput) :
    Except SubstrateError (Nat × List PollPeerEvent) × FederationState :=
  match s.federation.acceptPending input.accepted with
  | (.error e, f) => (.error e, f)
  | (.ok accepted, f) =>
    let (events, f) := f.progressPeers env.signatures env.blake3 (ownId s) s.ledger.dag
      s.revokedFederationPeers input.sockets
    (.ok (accepted, events), f)

/-- `accept_pending()?` and `progress_peers(..)`. -/
def servePeers (input : PollInput) : Handler env (Nat × List PollPeerEvent) := do
  let s ← get
  let (served, f) := serve s input
  modify (setFederation f)
  match served with
  | .error e => throw e
  | .ok r => pure r

def countEvents (p : PollPeerEvent → Bool) (events : List PollPeerEvent) : UInt64 :=
  UInt64.ofNat (events.countP p)

def PollPeerEvent.isPinned : PollPeerEvent → Bool
  | .pinned .. => true
  | _ => false

def PollPeerEvent.isRejected : PollPeerEvent → Bool
  | .rejectedSelfConnection _ | .rejectedSignatureInvalid .. | .rejectedProtocolVersion ..
  | .failedFrameRead .. => true
  | _ => false

def PollPeerEvent.isSent : PollPeerEvent → Bool
  | .eventsSent .. => true
  | _ => false

def PollPeerEvent.isBlocked : PollPeerEvent → Bool
  | .egressBlockedRevoked .. => true
  | _ => false

def handleFederationPoll (input : PollInput) (request : Message) :
    Handler env (Option Message) := do
  let s ← get
  let priorPeerCount := s.federation.peerCount
  let (accepted, events) ← servePeers input
  let now ← readClock
  events.forM (emitPollEvent operatorPoll (ownId s) now)
  emitConsensusFloorCrossingIfNeeded priorPeerCount
  let s ← get
  pure (respond "federation_poll_response" request
    [("accepted_connections", .uint (UInt64.ofNat accepted)),
      ("pinned_peers", .uint (countEvents PollPeerEvent.isPinned events)),
      ("rejected_peers", .uint (countEvents PollPeerEvent.isRejected events)),
      ("event_batches_sent", .uint (countEvents PollPeerEvent.isSent events)),
      ("consensus_floor_active", .bool (consensusFloorActive s)),
      ("egress_blocked_revoked", .uint (countEvents PollPeerEvent.isBlocked events))])

/-- What a tick does about federation. -/
def tickFederation (input : PollInput) : Handler env PUnit := do
  let s ← get
  if s.federation.listener.isNone && s.federation.peers.isEmpty then pure ()
  else
    let (_, events) ← servePeers input
    if events.isEmpty then pure ()
    else
      let now ← readClock
      events.forM (emitPollEvent autonomousTick (ownId s) now)

def connectPeer (dial : Dial) : Handler env ConnectPeerOutcome := do
  let s ← get
  let (outcome, f) := s.federation.connectPeer env.signatures (ownId s) dial
  modify (setFederation f)
  match outcome with
  | .error e => throw e
  | .ok outcome => pure outcome

/-- The entries of the answer that an outcome adds, after what it emits. -/
def connectOutcome : ConnectPeerOutcome → Handler env (List (String × Value))
  | .pinned id addr tip key verified => do
    let now ← readClock
    let eventHash ← emitFederationPeerPinned id addr now key
    if !verified then
      let _ ← (emitFederationLegacyPeerPinned id addr now : Handler env NodeHash).attempt
    pure ([("outcome", .string "pinned"), ("peer_substrate_id", hashValue id)] ++
      entryIf "peer_dag_tip" hashValue tip ++ [("peer_pinned_event_hash", hashValue eventHash)] ++
      entryIf "peer_signer_pubkey" hashValue key ++ [("signature_verified", .bool verified)])
  | .rejectedSelfConnection addr =>
    pure [("outcome", .string "self_connection"), ("remote_addr", .string addr)]
  | .rejectedIdentityDrift id newAddr previousAddr => do
    let _ ← (emitFederationPeerRejected id id newAddr
      s!"identity drift: id previously pinned at {previousAddr}; new connection at {newAddr}" :
        Handler env PUnit).attempt
    pure [("outcome", .string "identity_drift"), ("peer_substrate_id", hashValue id),
      ("remote_addr", .string newAddr)]
  | .rejectedSignatureInvalid id addr reason => do
    let _ ← (emitFederationHelloSignatureInvalid id addr reason : Handler env PUnit).attempt
    pure [("outcome", .string "hello_signature_invalid"), ("peer_substrate_id", hashValue id),
      ("remote_addr", .string addr), ("reason", .string reason)]
  | .alreadyPinned id addr =>
    pure [("outcome", .string "already_pinned"), ("peer_substrate_id", hashValue id),
      ("remote_addr", .string addr)]

def handleFederationConnectPeer (dial : Dial) (request : Message) :
    Handler env (Option Message) := do
  match string? request.payload "remote_addr" with
  | none | some "" =>
    throw (.protocol "federation_connect_peer: remote_addr must be non-empty String")
  | some remoteAddr =>
    let s ← get
    let priorPeerCount := s.federation.peerCount
    let outcome ← connectPeer dial
    let entries ← connectOutcome outcome
    emitConsensusFloorCrossingIfNeeded priorPeerCount
    pure (respond "federation_connect_peer_response" request
      (("remote_addr", .string remoteAddr) :: entries))

/-- The hint of who the parent is, and where it listens. -/
def readParentFederationHint (env : Env) (content : Bytes) :
    Except SubstrateError (Hash32 × String) := do
  let protocol (e : CanonicalBytesError) := SubstrateError.protocol (env.canonicalErrorText e)
  let map ← match decode content with
    | .ok (.map m) => .ok m
    | .ok _ => .error (.protocol "parent_federation_hint is not a Map")
    | .error (.err e) =>
      .error (.protocol s!"decode parent_federation_hint: {env.canonicalErrorText e}")
    | .error _ => .error (.protocol "decode parent_federation_hint")
  let idBytes ← (mapGetBytes map "parent_substrate_id").mapError protocol
  let id ← if h : idBytes.length = 32 then .ok (⟨idBytes, h⟩ : Hash32)
    else .error (.protocol "parent_substrate_id in hint is not 32 bytes")
  let addr ← (mapGetString map "parent_federation_addr").mapError protocol
  .ok (id, addr)

/-- The label of an outcome that is not a pin. -/
def ConnectPeerOutcome.label : ConnectPeerOutcome → String
  | .rejectedSelfConnection _ => "self_connection"
  | .rejectedIdentityDrift .. => "identity_drift"
  | .alreadyPinned .. => "already_pinned"
  | _ => "unknown"

/-- The entries that linking to the parent adds. -/
def linkOutcome (parentSubstrateId : Hash32) :
    ConnectPeerOutcome → Handler env (List (String × Value))
  | .pinned id addr _ key verified =>
    if id ≠ parentSubstrateId then
      throw (.protocol s!"federation parent link: parent at {addr} has substrate_id {
        hexFirst8Bytes id} but hint says parent is {hexFirst8Bytes parentSubstrateId}")
    else do
      let now ← readClock
      emitPinned id addr now key verified
      let eventHash ← emitSubstrateEvent federationParentLinkedType
        (encodeFederationParentLinked id addr now)
      pure [("parent_linked_event_hash", hashValue eventHash)]
  | outcome => pure [("connect_outcome", .string outcome.label)]

def handleFederationLinkToParentFromHint (dial : Dial) (request : Message) :
    Handler env (Option Message) := do
  let s ← get
  let answer := respond "federation_link_to_parent_from_hint_response" request
  match (s.nodes.filter fun n => n.nodeType = parentFederationHintType).getLast? with
  | none => pure (answer [("hint_found", .bool false), ("already_linked", .bool false)])
  | some hint =>
    match readParentFederationHint env hint.content with
    | .error e => throw e
    | .ok (parentSubstrateId, parentFederationAddr) =>
      let entries := [("hint_found", .bool true),
        ("parent_substrate_id", hashValue parentSubstrateId),
        ("parent_federation_addr", .string parentFederationAddr)]
      if s.nodes.any fun n => n.nodeType = federationParentLinkedType then
        pure (answer (entries ++ [("already_linked", .bool true)]))
      else
        let outcome ← connectPeer dial
        let more ← linkOutcome parentSubstrateId outcome
        pure (answer (entries ++ [("already_linked", .bool false)] ++ more))

/-! ### What may be written -/

/-- Plain, or the pin of one of those admitted, with its key. -/
def Pins (admitted : List (Hash32 × Option Hash32)) (n : DagNode) : Prop :=
  Plain n ∨ (∃ id key, (id, key) ∈ admitted ∧ pinOf n = key.map fun pk => (id, pk)) ∧
    (∀ claimType, voteOf claimType n = none) ∧ ∀ claimType ch, certOn claimType ch n = none

section

variable {admitted : List (Hash32 × Option Hash32)}

theorem adds_plain_type {t : String} {content : Bytes} (hp : PlainPrefix t) :
    Within (Adds (Pins admitted)) (emitSubstrateEvent t content : Handler env NodeHash) :=
  adds_emitSubstrateEvent fun _ h _ _ => .inl (plain_of_type h hp)

theorem adds_plain_named {p t : String} {content : Bytes} (hp : PlainPrefix p) :
    Within (Adds (Pins admitted)) (emitSubstrateEvent (p ++ t) content : Handler env NodeHash) :=
  adds_emitSubstrateEvent fun _ h _ _ => .inl (plain_of_startsWith (h ▸ startsWith_append) hp)

theorem adds_immune {id name evidence : String} : Within (Adds (Pins admitted))
    (emitImmuneSporocarp id name evidence : Handler env NodeHash) :=
  adds_emitImmuneSporocarp fun _ h => .inl (plain_immune h)

theorem adds_emitFederationPeerPinned {id : Hash32} {addr : String} {t : Int64}
    {key : Option Hash32} (h : (id, key) ∈ admitted) : Within (Adds (Pins admitted))
      (emitFederationPeerPinned id addr t key : Handler env NodeHash) := by
  refine adds_emitSubstrateEvent fun n ht hc hmem => .inr ⟨⟨id, key, h, ?_⟩, ?_, ?_⟩
  · rw [pinOf, if_pos (by rw [ht]; exact startsWith_append), hc,
      decode_encodeFederationPeerPinned hmem]
  · intro ct
    refine if_neg fun hv => ?_
    have h1 : startsWith federationPeerPinnedPrefix n.nodeType := by rw [ht]; exact startsWith_append
    exact not_startsWith h1 (q := populationVotePrefix) (by decide) (hv ▸ startsWith_append)
  · intro ct ch
    refine if_neg fun hv => ?_
    have h1 : startsWith federationPeerPinnedPrefix n.nodeType := by rw [ht]; exact startsWith_append
    exact not_startsWith h1 (q := populationConsensusReachedPrefix) (by decide)
      (hv ▸ startsWith_append)

theorem adds_emitFederationPeerRejected {offered previous : Hash32} {addr reason : String} :
    Within (Adds (Pins admitted))
      (emitFederationPeerRejected offered previous addr reason : Handler env PUnit) :=
  within_bind adds_readClock fun _ =>
    within_bind (within_attempt (adds_plain_named (by unfold PlainPrefix; decide))) fun _ =>
      within_bind (within_attempt adds_immune) fun _ => within_pure

theorem adds_emitFederationHelloSignatureInvalid {id : Hash32} {addr reason : String} :
    Within (Adds (Pins admitted))
      (emitFederationHelloSignatureInvalid id addr reason : Handler env PUnit) :=
  within_bind (within_attempt adds_immune) fun _ => within_pure

theorem adds_emitFederationLegacyPeerPinned {id : Hash32} {addr : String} {t : Int64} :
    Within (Adds (Pins admitted))
      (emitFederationLegacyPeerPinned id addr t : Handler env NodeHash) :=
  adds_plain_named (by unfold PlainPrefix; decide)

theorem adds_emitPinned {id : Hash32} {addr : String} {now : Int64} {key : Option Hash32}
    {verified : Bool} (h : (id, key) ∈ admitted) :
    Within (Adds (Pins admitted)) (emitPinned id addr now key verified : Handler env PUnit) := by
  refine within_bind (within_attempt (adds_emitFederationPeerPinned h)) fun _ => ?_
  split
  · exact within_bind (within_attempt adds_emitFederationLegacyPeerPinned) fun _ => within_pure
  · exact within_pure

theorem adds_emitPollEvent {texts : PollTexts} {own : Hash32} {now : Int64} {e : PollPeerEvent}
    (h : ∀ a, e.admission = some a → a ∈ admitted) :
    Within (Adds (Pins admitted)) (emitPollEvent texts own now e : Handler env PUnit) := by
  cases e with
  | pinned id addr tip key verified => exact adds_emitPinned (h _ rfl)
  | rejectedSelfConnection addr => exact adds_emitFederationPeerRejected
  | rejectedSignatureInvalid id addr reason => exact adds_emitFederationHelloSignatureInvalid
  | failedFrameRead addr reason => exact adds_emitFederationPeerRejected
  | eventsSent id hashes =>
    exact within_bind (within_attempt (adds_plain_type (by unfold PlainPrefix; decide)))
      fun _ => within_pure
  | egressBlockedRevoked id addr =>
    exact within_bind (within_attempt adds_immune) fun _ => within_pure
  | rejectedProtocolVersion id addr pv ov =>
    exact within_bind (within_attempt adds_immune) fun _ => within_pure

theorem adds_emitPollEvents {texts : PollTexts} {own : Hash32} {now : Int64}
    {events : List PollPeerEvent} : Within (Adds (Pins (admissions events)))
      (events.forM (emitPollEvent texts own now) : Handler env PUnit) :=
  within_forM fun _ he => adds_emitPollEvent fun _ ha => List.mem_filterMap.2 ⟨_, he, ha⟩

end

end Myco.Federation
