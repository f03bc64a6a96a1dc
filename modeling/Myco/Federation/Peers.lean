import Myco.Canonical.Value

/-!
# Connections to peers

`FederationState` of `substrate/src/federation/mod.rs` and `PeerConnection` of `transport.rs`, less
the sockets: what arrives on them is an argument of the functions that read it. `Signatures` is
what the code uses of Ed25519.
-/

namespace Myco.Federation

open Myco.Lib Myco.Canonical

/-- Rust's `[u8; 64]`. -/
structure Signature where
  bytes : Bytes
  length_eq : bytes.length = 64
deriving DecidableEq

structure Signatures where
  /-- the public key of a seed -/
  publicKey : Hash32 → Hash32
  sign : Hash32 → Bytes → Signature
  /-- `verify_signature(public_key, signature, message).is_ok()` -/
  verifySignature : Hash32 → Signature → Bytes → Bool
  /-- `Display` of the error where it is not -/
  errorText : Hash32 → Signature → Bytes → String

inductive PeerConnectionState where
  | awaitingHello
  | established
  | failed
deriving DecidableEq

structure PeerConnection where
  state : PeerConnectionState
  peerSubstrateId : Option Hash32
  pinnedSignerPubkey : Option Hash32
  remoteAddr : String
  openedAtUnixNs : Int64
deriving DecidableEq

/-- The peer and the key that its connection has pinned. -/
def PeerConnection.pinnedKey (p : PeerConnection) : Option (Hash32 × Option Hash32) :=
  p.peerSubstrateId.map fun id => (id, p.pinnedSignerPubkey)

structure FederationListener where
  bindAddr : String
  openedAtUnixNs : Int64

structure FederationState where
  listener : Option FederationListener
  peers : List PeerConnection
  acceptLegacyPeers : Bool

namespace FederationState

def new (acceptLegacyPeers : Bool) : FederationState := ⟨none, [], acceptLegacyPeers⟩

def peerCount (f : FederationState) : Nat := f.peers.length

/-- Whether a tick has anything to poll. -/
def active (f : FederationState) : Bool := f.listener.isSome || !f.peers.isEmpty

/-- The substrates that have completed a handshake here. -/
def peerIds (f : FederationState) : List Hash32 := f.peers.filterMap PeerConnection.peerSubstrateId

/-- The same, with the keys that their connections have pinned. -/
def pinnedKeys (f : FederationState) : List (Hash32 × Option Hash32) :=
  f.peers.filterMap PeerConnection.pinnedKey

end FederationState

end Myco.Federation
