import Myco.Lib.SwapRemove
import Myco.Federation.Events

/-!
# Handshakes

`FederationState::connect_peer`, `accept_pending` and `progress_peers` of
`substrate/src/federation/mod.rs`, with the hello of `protocol.rs`. What the sockets yield is an
argument: who was accepted, what a read gives, whether a write went through.

An inbound hello is not compared with the peers that are connected; an outbound one is.
-/

namespace Myco.Federation

open Myco.Lib Myco.Canonical Myco.Schema Myco.Substrate

/-! ### Hellos -/

def federationProtocolVersion : UInt64 := 1

/-- The compatibility matrix is empty. -/
def federationVersionsInteroperable (ourVersion peerVersion : UInt64) : Bool :=
  ourVersion = peerVersion

structure ParsedFedHello where
  peerSubstrateId : Hash32
  peerDagTip : Option Hash32
  protocolVersion : UInt64
  signerPubkey : Option Hash32
  helloSignature : Option Signature
deriving DecidableEq

/-- `Some(Bytes) if b.len() == 32`, an error for anything else that is there. -/
def optionalBytes32 (payload : List (String × Value)) (field : String) :
    Except String (Option Hash32) :=
  match OrdMap.get field payload with
  | some _ =>
    match bytes32? payload field with
    | some h => .ok (some h)
    | none => .error s!"{field} present but not 32 Bytes"
  | none => .ok none

def optionalBytes64 (payload : List (String × Value)) (field : String) :
    Except String (Option Signature) :=
  match OrdMap.get field payload with
  | some _ =>
    match bytes64? payload field with
    | some s => .ok (some s)
    | none => .error s!"{field} present but not 64 Bytes"
  | none => .ok none

def parseFedHelloPayload (payload : List (String × Value)) : Except String ParsedFedHello := do
  let peerSubstrateId ← match OrdMap.get "peer_substrate_id" payload with
    | some _ =>
      match bytes32? payload "peer_substrate_id" with
      | some h => .ok h
      | none => .error "peer_substrate_id is not 32 Bytes"
    | none => .error "peer_substrate_id missing"
  let peerDagTip ← optionalBytes32 payload "dag_tip"
  let protocolVersion ← match OrdMap.get "protocol_version" payload with
    | some (.uint v) => .ok v
    | _ => .error "protocol_version missing or not Uint"
  let signerPubkey ← optionalBytes32 payload "signer_pubkey"
  let helloSignature ← optionalBytes64 payload "hello_signature"
  if signerPubkey.isSome ≠ helloSignature.isSome then
    .error "fed_hello: signer_pubkey and hello_signature must both be present or both absent"
  else
    .ok { peerSubstrateId, peerDagTip, protocolVersion, signerPubkey, helloSignature }

def buildFedHelloSigningMessage (peerSubstrateId : Hash32) (dagTip : Option Hash32)
    (protocolVersion : UInt64) : Bytes :=
  cbEncode ([("context", .string "myco-fed-hello-v1"),
    ("peer_substrate_id", hashValue peerSubstrateId)] ++ entryIf "dag_tip" hashValue dagTip ++
    [("protocol_version", .uint protocolVersion)])

/-- Whether the hello carries a signature, which then verifies. -/
def verifyFedHelloSignature (signatures : Signatures) (parsed : ParsedFedHello) :
    Except String Bool :=
  match parsed.signerPubkey, parsed.helloSignature with
  | some pk, some sig =>
    let msg := buildFedHelloSigningMessage parsed.peerSubstrateId parsed.peerDagTip
      parsed.protocolVersion
    if signatures.verifySignature pk sig msg then .ok true
    else .error s!"fed_hello signature verify failed: {signatures.errorText pk sig msg}"
  | none, none => .ok false
  | _, _ => .error "hello has only one of signer_pubkey/hello_signature"

def missingRequiredSignature : String :=
  "missing_required_signature: legacy hellos are rejected unless MYCO_ACCEPT_LEGACY_PEERS=1"

/-- Whether a hello is signed, if it is one that this policy admits. -/
def admitHello (signatures : Signatures) (acceptLegacyPeers : Bool) (parsed : ParsedFedHello) :
    Except String Bool :=
  match verifyFedHelloSignature signatures parsed with
  | .ok true => .ok true
  | .ok false => if acceptLegacyPeers then .ok false else .error missingRequiredSignature
  | .error reason => .error reason

/-- Only a verified key is pinned. -/
def ParsedFedHello.pinnedSigner (parsed : ParsedFedHello) (signatureVerified : Bool) :
    Option Hash32 :=
  if signatureVerified then parsed.signerPubkey else none

/-! ### Connecting -/

/-- A frame, if one is there. -/
abbrev FrameRead := Except String (Option Message)

inductive ConnectPeerOutcome where
  | pinned (peerSubstrateId : Hash32) (remoteAddr : String) (peerDagTip signerPubkey : Option Hash32)
      (signatureVerified : Bool)
  | rejectedSelfConnection (remoteAddr : String)
  | rejectedIdentityDrift (peerSubstrateId : Hash32) (newRemoteAddr previouslyPinnedAddr : String)
  | rejectedSignatureInvalid (peerSubstrateId : Hash32) (remoteAddr reason : String)
  | alreadyPinned (peerSubstrateId : Hash32) (remoteAddr : String)
deriving DecidableEq

/-- What dialling out comes to. -/
structure Dial where
  /-- the address connected to -/
  connected : Except String String
  readTimeout : Except String Unit
  helloWritten : Except String Unit
  ackRead : FrameRead
  openedAtUnixNs : Int64

/-- The hello of the peer, as far as the wire goes. -/
def dialHello (dial : Dial) : Except SubstrateError (String × ParsedFedHello) := do
  let peerAddr ← dial.connected.mapError fun e => .protocol s!"federation dial: {e}"
  dial.readTimeout.mapError fun e => .io e
  dial.helloWritten.mapError fun e => .protocol s!"federation hello write: {e}"
  let ack ← dial.ackRead.mapError fun e => .protocol s!"federation hello ack read: {e}"
  match ack with
  | none => .error (.protocol "federation hello ack: timeout / no response")
  | some ackMsg =>
    if ackMsg.messageType ≠ "fed_hello_ack" then
      .error (.protocol s!"federation: expected fed_hello_ack; got {ackMsg.messageType}")
    else
      let parsed ← (parseFedHelloPayload ackMsg.payload).mapError .protocol
      .ok (peerAddr, parsed)

/-- The peer that claims the same id, if it is not the same peer again. -/
def identityDrift (existing : PeerConnection) (peerAddr : String) (parsed : ParsedFedHello) : Bool :=
  existing.remoteAddr ≠ peerAddr ||
    match existing.pinnedSignerPubkey, parsed.signerPubkey with
    | some existingPk, some newPk => existingPk ≠ newPk
    | _, _ => false

namespace FederationState

def connectHello (signatures : Signatures) (f : FederationState) (ourSubstrateId : Hash32)
    (openedAtUnixNs : Int64) (peerAddr : String) (parsed : ParsedFedHello) :
    ConnectPeerOutcome × FederationState :=
  match admitHello signatures f.acceptLegacyPeers parsed with
  | .error reason => (.rejectedSignatureInvalid parsed.peerSubstrateId peerAddr reason, f)
  | .ok signatureVerified =>
    if parsed.peerSubstrateId = ourSubstrateId then (.rejectedSelfConnection peerAddr, f)
    else
      match f.peers.find? (·.peerSubstrateId = some parsed.peerSubstrateId) with
      | some existing =>
        if identityDrift existing peerAddr parsed then
          (.rejectedIdentityDrift parsed.peerSubstrateId peerAddr existing.remoteAddr, f)
        else (.alreadyPinned parsed.peerSubstrateId peerAddr, f)
      | none =>
        let pinnedSigner := parsed.pinnedSigner signatureVerified
        (.pinned parsed.peerSubstrateId peerAddr parsed.peerDagTip pinnedSigner signatureVerified,
          { f with peers := f.peers ++ [⟨.established, some parsed.peerSubstrateId, pinnedSigner,
              peerAddr, openedAtUnixNs⟩] })

def connectPeer (signatures : Signatures) (f : FederationState) (ourSubstrateId : Hash32)
    (dial : Dial) : Except SubstrateError ConnectPeerOutcome × FederationState :=
  match dialHello dial with
  | .error e => (.error e, f)
  | .ok (peerAddr, parsed) =>
    let (outcome, f) := f.connectHello signatures ourSubstrateId dial.openedAtUnixNs peerAddr parsed
    (.ok outcome, f)

/-! ### Being connected to -/

/-- `open_listener`, with what binding the address comes to; the listener there was is dropped. -/
def openListener (f : FederationState) (bound : Except SubstrateError FederationListener) :
    Except SubstrateError FederationListener × FederationState :=
  match bound with
  | .error e => (.error e, { f with listener := none })
  | .ok l => (.ok l, { f with listener := some l })

def closeListener (f : FederationState) : Option FederationListener × FederationState :=
  (f.listener, { f with listener := none })

/-- What accepting comes to: who has connected, and the error that ended it, if one did. -/
structure Accepted where
  connections : List (String × Int64)
  error : Option String

def acceptPending (f : FederationState) (accepted : Accepted) :
    Except SubstrateError Nat × FederationState :=
  match f.listener with
  | none => (.ok 0, f)
  | some _ =>
    let f := { f with peers := f.peers ++ accepted.connections.map fun (addr, openedAtUnixNs) =>
      ⟨.awaitingHello, none, none, addr, openedAtUnixNs⟩ }
    match accepted.error with
    | some e => (.error (.io e), f)
    | none => (.ok accepted.connections.length, f)

end FederationState

inductive PollPeerEvent where
  | pinned (peerSubstrateId : Hash32) (remoteAddr : String) (peerDagTip signerPubkey : Option Hash32)
      (signatureVerified : Bool)
  | rejectedSelfConnection (remoteAddr : String)
  | rejectedSignatureInvalid (peerSubstrateId : Hash32) (remoteAddr reason : String)
  | failedFrameRead (remoteAddr reason : String)
  | eventsSent (peerSubstrateId : Hash32) (sentEventHashes : List Hash32)
  | egressBlockedRevoked (peerSubstrateId : Hash32) (remoteAddr : String)
  | rejectedProtocolVersion (peerSubstrateId : Hash32) (remoteAddr : String)
      (peerVersion ourVersion : UInt64)
deriving DecidableEq

/-- What a poll finds on the socket of a peer. -/
structure Wire where
  frame : FrameRead
  /-- of the answer -/
  written : Except String Unit

/-- A peer after its turn, the events of the turn, and whether it is to be removed. -/
structure Turn where
  peer : PeerConnection
  events : List PollPeerEvent
  remove : Bool

def Turn.unchanged (peer : PeerConnection) : Turn := ⟨peer, [], false⟩

/-- The connection is closed. -/
def Turn.failed (peer : PeerConnection) (event : PollPeerEvent) : Turn :=
  ⟨{ peer with state := .failed }, [event], true⟩

/-- A hello that has been parsed, with `written` for the acknowledgement. -/
def greet (signatures : Signatures) (acceptLegacyPeers : Bool) (ourSubstrateId : Hash32)
    (written : Except String Unit) (peer : PeerConnection) (parsed : ParsedFedHello) : Turn :=
  if !federationVersionsInteroperable federationProtocolVersion parsed.protocolVersion then
    .failed peer (.rejectedProtocolVersion parsed.peerSubstrateId peer.remoteAddr
      parsed.protocolVersion federationProtocolVersion)
  else
    match admitHello signatures acceptLegacyPeers parsed with
    | .error reason =>
      .failed peer (.rejectedSignatureInvalid parsed.peerSubstrateId peer.remoteAddr reason)
    | .ok signatureVerified =>
      if parsed.peerSubstrateId = ourSubstrateId then
        .failed peer (.rejectedSelfConnection peer.remoteAddr)
      else
        match written with
        | .error e => .failed peer (.failedFrameRead peer.remoteAddr s!"send fed_hello_ack: {e}")
        | .ok () =>
          let pinnedSigner := parsed.pinnedSigner signatureVerified
          { peer := { peer with
              state := .established
              peerSubstrateId := some parsed.peerSubstrateId
              pinnedSignerPubkey :=
                if signatureVerified then parsed.signerPubkey else peer.pinnedSignerPubkey }
            events := [.pinned parsed.peerSubstrateId peer.remoteAddr parsed.peerDagTip pinnedSigner
              signatureVerified]
            remove := false }

/-- One turn of the loop of `progress_awaiting_hello_peers`. -/
def progressHello (signatures : Signatures) (acceptLegacyPeers : Bool) (ourSubstrateId : Hash32)
    (wire : Wire) (peer : PeerConnection) : Turn :=
  if peer.state ≠ .awaitingHello then .unchanged peer
  else
    match wire.frame with
    | .error e => .failed peer (.failedFrameRead peer.remoteAddr e)
    | .ok none => .unchanged peer
    | .ok (some helloMsg) =>
      if helloMsg.messageType ≠ "fed_hello" then
        .failed peer (.failedFrameRead peer.remoteAddr
          s!"expected fed_hello as first frame; got {helloMsg.messageType}")
      else
        match parseFedHelloPayload helloMsg.payload with
        | .error e => .failed peer (.failedFrameRead peer.remoteAddr s!"parse fed_hello: {e}")
        | .ok parsed =>
          greet signatures acceptLegacyPeers ourSubstrateId wire.written peer parsed

def fedEventBatchMaxEvents : UInt64 := 100

structure ParsedRequestEventsSince where
  sinceNodeHash : Option Hash32
  maxEvents : UInt64

def parseRequestEventsSincePayload (payload : List (String × Value)) :
    Except String ParsedRequestEventsSince := do
  let sinceNodeHash ← optionalBytes32 payload "since_node_hash"
  let maxEvents := match OrdMap.get "max_events" payload with
    | some (.uint n) => min n fedEventBatchMaxEvents
    | _ => fedEventBatchMaxEvents
  .ok { sinceNodeHash, maxEvents }

/-- The nodes after the one named, as many as may be sent. -/
def enumerateEventsForFederation (dag : Dag) (sinceNodeHash : Option Hash32) (maxEvents : Nat) :
    List DagNode :=
  let newer := match sinceNodeHash with
    | none => dag.iterInInsertionOrder
    | some target =>
      (dag.iterInInsertionOrder.dropWhile fun n : DagNode => n.hash ≠ target).drop 1
  newer.take maxEvents

/-- One turn of the loop of `progress_peers` over the established peers. -/
def progressEstablished (blake3 : Bytes → NodeHash) (localDag : Dag) (revokedPeers : List Hash32)
    (wire : Wire) (peer : PeerConnection) : Turn :=
  match peer.state, peer.peerSubstrateId with
  | .established, some peerId =>
    match wire.frame with
    | .error e => .failed peer (.failedFrameRead peer.remoteAddr s!"established read: {e}")
    | .ok none => .unchanged peer
    | .ok (some msg) =>
      if msg.messageType ≠ "fed_request_events_since" then .unchanged peer
      else if peerId ∈ revokedPeers then
        ⟨peer, [.egressBlockedRevoked peerId peer.remoteAddr], false⟩
      else
        match parseRequestEventsSincePayload msg.payload with
        | .error e =>
          ⟨peer, [.failedFrameRead peer.remoteAddr s!"parse REQ_EVENTS_SINCE: {e}"], false⟩
        | .ok parsed =>
          let toSend := enumerateEventsForFederation localDag parsed.sinceNodeHash
            parsed.maxEvents.toNat
          match wire.written with
          | .error e => .failed peer (.failedFrameRead peer.remoteAddr s!"send EVENT_BATCH: {e}")
          | .ok () =>
            ⟨peer, [.eventsSent peerId (toSend.map fun n =>
              merkleHash blake3 n.parentHashes n.content)], false⟩
  | _, _ => .unchanged peer

namespace FederationState

/-- A loop over the peers, and the sweep after it. -/
def progress (turn : Wire → PeerConnection → Turn) (wires : Nat → Wire) (f : FederationState) :
    List PollPeerEvent × FederationState :=
  let turns := f.peers.mapIdx fun i p => turn (wires i) p
  (turns.flatMap Turn.events, { f with peers := sweep (turns.map fun t => (t.peer, t.remove)) })

def progressAwaitingHelloPeers (signatures : Signatures) (ourSubstrateId : Hash32)
    (wires : Nat → Wire) (f : FederationState) : List PollPeerEvent × FederationState :=
  f.progress (progressHello signatures f.acceptLegacyPeers ourSubstrateId) wires

/-- What the sockets hold, peer by peer, first for the hellos, then for the requests. -/
structure Sockets where
  hellos : Nat → Wire
  requests : Nat → Wire

def progressPeers (signatures : Signatures) (blake3 : Bytes → NodeHash) (ourSubstrateId : Hash32)
    (localDag : Dag) (revokedPeers : List Hash32) (sockets : Sockets) (f : FederationState) :
    List PollPeerEvent × FederationState :=
  let (events, f) := f.progressAwaitingHelloPeers signatures ourSubstrateId sockets.hellos
  let (more, f) := f.progress (progressEstablished blake3 localDag revokedPeers) sockets.requests
  (events ++ more, f)

end FederationState

end Myco.Federation
