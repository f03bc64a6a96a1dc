import Myco.Substrate.Events

/-!
# The events of federation

Types and bodies of the events that connecting to peers leaves in the log
(`substrate/src/events/federation.rs`). `decodeFederationPeerPinnedSigner` reads the pin of a peer
back; a peer pinned without a signature leaves none.
-/

namespace Myco.Federation

open Myco.Lib Myco.Canonical Myco.Schema Myco.Substrate

def federationListenerOpenedType : String := "federation_listener_opened"

def encodeFederationListenerOpened (bindAddr : String) (openedAtUnixNs : Int64) : Bytes :=
  cbEncode [("bind_addr", .string bindAddr), ("opened_at_unix_ns", .timestamp openedAtUnixNs)]

def federationListenerClosedType : String := "federation_listener_closed"

def encodeFederationListenerClosed (bindAddr : String) (closedAtUnixNs : Int64) : Bytes :=
  cbEncode [("bind_addr", .string bindAddr), ("closed_at_unix_ns", .timestamp closedAtUnixNs)]

def federationPeerPinnedPrefix : String := "federation_peer_pinned:"

def federationPeerPinnedNodeType (peerSubstrateId : Hash32) : String :=
  federationPeerPinnedPrefix ++ hexPrefix peerSubstrateId.bytes 8

def encodeFederationPeerPinned (peerSubstrateId : Hash32) (remoteAddr : String)
    (firstPinnedUnixNs : Int64) (signerPubkey : Option Hash32) : Bytes :=
  cbEncode ([("peer_substrate_id", hashValue peerSubstrateId), ("remote_addr", .string remoteAddr),
    ("first_pinned_unix_ns", .timestamp firstPinnedUnixNs)] ++
    entryIf "signer_pubkey" hashValue signerPubkey)

/-- The peer and its key, if the event names one. -/
def decodeFederationPeerPinnedSigner (bytes : Bytes) : Option (Hash32 × Hash32) := do
  let m ← decodeMap? bytes
  let peerSubstrateId ← bytes32? m "peer_substrate_id"
  let signerPubkey ← bytes32? m "signer_pubkey"
  some (peerSubstrateId, signerPubkey)

def federationLegacyPeerPinnedNodeType (peerSubstrateId : Hash32) : String :=
  "federation_legacy_peer_pinned:" ++ hexPrefix peerSubstrateId.bytes 8

def encodeFederationLegacyPeerPinned (peerSubstrateId : Hash32) (remoteAddr : String)
    (firstPinnedUnixNs : Int64) : Bytes :=
  cbEncode [("peer_substrate_id", hashValue peerSubstrateId), ("remote_addr", .string remoteAddr),
    ("first_pinned_unix_ns", .timestamp firstPinnedUnixNs)]

def federationPeerRejectedNodeType (offeredSubstrateId : Hash32) : String :=
  "federation_peer_rejected:" ++ hexPrefix offeredSubstrateId.bytes 8

def encodeFederationPeerRejected (offeredSubstrateId previouslyPinnedSubstrateId : Hash32)
    (remoteAddr : String) (rejectedAtUnixNs : Int64) (reason : String) : Bytes :=
  cbEncode [("offered_substrate_id", hashValue offeredSubstrateId),
    ("previously_pinned_substrate_id", hashValue previouslyPinnedSubstrateId),
    ("remote_addr", .string remoteAddr), ("rejected_at_unix_ns", .timestamp rejectedAtUnixNs),
    ("reason", .string reason)]

def federationEventsSentType : String := "federation_events_sent"

def encodeFederationEventsSent (toPeerSubstrateId : Hash32) (sentEventHashes : List Hash32)
    (sentAtUnixNs : Int64) : Bytes :=
  cbEncode [("to_peer_substrate_id", hashValue toPeerSubstrateId),
    ("sent_event_hashes", .array (sentEventHashes.map hashValue)),
    ("sent_at_unix_ns", .timestamp sentAtUnixNs)]

def parentFederationHintType : String := "parent_federation_hint"

def federationParentLinkedType : String := "federation_parent_linked"

def encodeFederationParentLinked (parentSubstrateId : Hash32) (parentFederationAddr : String)
    (linkedAtUnixNs : Int64) : Bytes :=
  cbEncode [("parent_substrate_id", hashValue parentSubstrateId),
    ("parent_federation_addr", .string parentFederationAddr),
    ("linked_at_unix_ns", .timestamp linkedAtUnixNs)]

def federationPeerRevokedPrefix : String := "federation_peer_revoked:"

def federationPeerRevokedNodeType (revokedPeerSubstrateId : Hash32) : String :=
  federationPeerRevokedPrefix ++ hexPrefix revokedPeerSubstrateId.bytes 8

/-- What the owner signed to revoke a peer, and the signature. -/
structure Revocation where
  revokedPeerSubstrateId : Hash32
  revokedPubkey : Hash32
  reason : String
  anchorTimestampUnixSeconds : UInt64
  ownerSignature : Signature
  ownerPubkey : Hash32

def encodeFederationPeerRevoked (r : Revocation) : Bytes :=
  cbEncode [("revoked_peer_substrate_id", hashValue r.revokedPeerSubstrateId),
    ("revoked_pubkey", hashValue r.revokedPubkey), ("reason", .string r.reason),
    ("anchor_timestamp_unix_seconds", .uint r.anchorTimestampUnixSeconds),
    ("owner_signature", .bytes r.ownerSignature.bytes), ("owner_pubkey", hashValue r.ownerPubkey)]

def decodeFederationPeerRevokedTarget (bytes : Bytes) : Option Hash32 := do
  let m ← decodeMap? bytes
  bytes32? m "revoked_peer_substrate_id"

/-- The target of a revocation in the log. -/
def revocationOf (node : DagNode) : Option Hash32 :=
  if startsWith federationPeerRevokedPrefix node.nodeType then
    decodeFederationPeerRevokedTarget node.content
  else none

def deriveRevokedFederationPeersFromDag (nodes : List DagNode) : List Hash32 :=
  nodes.filterMap revocationOf

theorem decode_encodeFederationPeerPinned {id : Hash32} {addr : String} {t : Int64}
    {key : Option Hash32} (hmem : (encodeFederationPeerPinned id addr t key).length ≤ isizeMax) :
    decodeFederationPeerPinnedSigner (encodeFederationPeerPinned id addr t key) =
      key.map fun pk => (id, pk) := by
  have hwf : ∀ e ∈ [("peer_substrate_id", hashValue id), ("remote_addr", .string addr),
      ("first_pinned_unix_ns", .timestamp t)] ++ entryIf "signer_pubkey" hashValue key,
      e.2.WF := by
    intro e he
    rw [List.mem_append, mem_entryIf] at he
    rcases he with he | ⟨pk, -, rfl⟩
    · revert e
      simp [hashValue, Value.WF]
    · trivial
  rw [decodeFederationPeerPinnedSigner, encodeFederationPeerPinned, decodeMap?_cbEncode hmem hwf]
  generalize hm : OrdMap.ofList utf8 _ = m
  have hget : ∀ k, OrdMap.get k m = _ := fun k => hm ▸ get_mapOf
  simp only [List.reverse_append, OrdMap.get_append, get_entryIf] at hget
  rw [Option.bind_eq_bind, Option.bind_some,
    bytes32?_eq (h := id) (by simp [hget, OrdMap.get_cons])]
  cases key with
  | none =>
    have : bytes32? m "signer_pubkey" = none := by simp [bytes32?, hget, OrdMap.get_cons]
    rw [this]
    rfl
  | some pk =>
    rw [bytes32?_eq (h := pk) (by simp [hget, OrdMap.get_cons])]
    rfl

end Myco.Federation
