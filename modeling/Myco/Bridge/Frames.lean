import Myco.Canonical.Length
import Myco.Substrate.Events
import Myco.Substrate.ServerState

/-!
# Frames

How a message goes over a connection: `encode_frame_body` and `decode_frame_body` of
`kernel/bridge/rust/src/protocol.rs`, and `write_frame`, `read_exact_or_eof` and `read_frame` of
`framing.rs`, with `read_fed_frame` of `substrate/src/federation/transport.rs`.

A frame is a length of four bytes, a MAC and the canonical bytes of the message. What the socket
yields is a list of `Arrival`s: a `read` takes from the first of them what it has room for, and past
the last one the peer has closed the connection.
-/

namespace Myco.Bridge

open Myco.Lib Myco.Canonical Myco.Substrate

/-! ### The code -/

def protocolVersion : UInt64 := 1
def hmacSize : Nat := 32
def maxFrameBodySize : Nat := 1024 * 1024

/-- The texts of `BridgeError::Protocol`, one constructor a message. -/
inductive ProtocolError where
  /-- `body is not a Map: {other:?}` -/
  | bodyNotMap (other : Value)
  /-- the text of the helper's error -/
  | field (e : CanonicalBytesError)
  /-- `protocol version mismatch: got {version}, expected {PROTOCOL_VERSION}` -/
  | versionMismatch (version : UInt64)
  /-- `frame body too small: {} < HMAC size {HMAC_SIZE}` -/
  | frameTooSmall (size : Nat)

inductive ErrorKind where
  | wouldBlock
  | timedOut
  | interrupted
  | other
deriving DecidableEq

/-- A read that comes to nothing, for now. -/
def ErrorKind.isTimeout : ErrorKind → Bool
  | .wouldBlock | .timedOut | .interrupted => true
  | .other => false

inductive BridgeError where
  | protocol (e : ProtocolError)
  | io (kind : ErrorKind)
  | canonicalBytes (e : CanonicalBytesError)
  | subprocess (what : String)
  | frameTooLarge (what : String)
  | hmacMismatch (what : String)

/-- HMAC-SHA256, of a key and a body. -/
abbrev Hmac := Hash32 → Bytes → Hash32

def noHmac : Hmac := fun _ _ => .replicate 0

def bodyEntries (m : Message) : List (String × Value) :=
  [("v", .uint protocolVersion), ("type", .string m.messageType), ("request_id", .uint m.requestId),
    ("payload", .map m.payload)]

def toBodyCanonicalBytes (m : Message) : Bytes := cbEncode (bodyEntries m)

def encodeFrameBody (hmac : Hmac) (key : Hash32) (m : Message) : Bytes :=
  (hmac key (toBodyCanonicalBytes m)).bytes ++ toBodyCanonicalBytes m

def fromBodyMap (map : List (String × Value)) : Except ProtocolError Message := do
  let version ← (mapGetUint map "v").mapError .field
  if version ≠ protocolVersion then .error (.versionMismatch version)
  else
    let messageType ← (mapGetString map "type").mapError .field
    let requestId ← (mapGetUint map "request_id").mapError .field
    let payload ← (mapGetMap map "payload").mapError .field
    .ok { messageType, requestId, payload }

def fromBodyCanonicalBytes (body : Bytes) : Except (Fault BridgeError) Message :=
  match decode body with
  | .error e => .error (e.map .canonicalBytes)
  | .ok (.map map) => (fromBodyMap map).mapError fun e => .err (.protocol e)
  | .ok other => .error (.err (.protocol (.bodyNotMap other)))

def decodeFrameBody (hmac : Hmac) (key : Hash32) (frame : Bytes) :
    Except (Fault BridgeError) Message :=
  if frame.length < hmacSize then .error (.err (.protocol (.frameTooSmall frame.length)))
  else
    let body := frame.drop hmacSize
    if (hmac key body).bytes ≠ frame.take hmacSize then
      .error (.err (.hmacMismatch "HMAC verification failed"))
    else fromBodyCanonicalBytes body

/-- What `write_frame` writes. -/
def writeFrame (frameBody : Bytes) : Except BridgeError Bytes :=
  if frameBody.length > maxFrameBodySize then
    .error (.frameTooLarge s!"outgoing frame size {frameBody.length} exceeds cap {
      maxFrameBodySize}")
  else .ok (beBytes 4 frameBody.length ++ frameBody)

/-! ### Reading -/

/-- What comes next on a socket: bytes, at least one, or a `read` that fails. -/
inductive Arrival where
  | chunk (b : UInt8) (bs : Bytes)
  | failure (kind : ErrorKind)
deriving DecidableEq

/-- The bytes of a chunk that a `read` has left, before what comes after it. -/
def unread : Bytes → List Arrival → List Arrival
  | [], rest => rest
  | b :: bs, rest => .chunk b bs :: rest

/-- The loop of `read_exact_or_eof`, with what it has read. -/
def readLoop (n : Nat) : Bytes → List Arrival → Except BridgeError (Option Bytes) × List Arrival
  | read, [] =>
    (if read.isEmpty then .ok none
      else .error (.subprocess s!"truncated read: got {read.length} of {n} bytes before EOF"), [])
  | read, .failure kind :: rest =>
    if kind = .interrupted then readLoop n read rest else (.error (.io kind), rest)
  | read, .chunk b bs :: rest =>
    let got := (b :: bs).take (n - read.length)
    if read.length + got.length < n then readLoop n (read ++ got) rest
    else (.ok (some (read ++ got)), unread ((b :: bs).drop (n - read.length)) rest)

def readExactOrEof (n : Nat) (arrivals : List Arrival) :
    Except BridgeError (Option Bytes) × List Arrival :=
  if n = 0 then (.ok (some []), arrivals) else readLoop n [] arrivals

def readFrame (arrivals : List Arrival) : Except BridgeError (Option Bytes) × List Arrival :=
  match readExactOrEof 4 arrivals with
  | (.error e, rest) => (.error e, rest)
  | (.ok none, rest) => (.ok none, rest)
  | (.ok (some lengthBytes), rest) =>
    let length := beNat lengthBytes
    if length > maxFrameBodySize then
      (.error (.frameTooLarge s!"incoming frame size {length} exceeds cap {maxFrameBodySize}"), rest)
    else
      match readExactOrEof length rest with
      | (.ok none, rest) => (.error (.subprocess "EOF after length prefix; no body bytes"), rest)
      | r => r

def readFedFrame (hmac : Hmac) (key : Hash32) (arrivals : List Arrival) :
    Except (Fault BridgeError) (Option Message) × List Arrival :=
  match readFrame arrivals with
  | (.ok (some frameBody), rest) => ((decodeFrameBody hmac key frameBody).map some, rest)
  | (.ok none, rest) => (.ok none, rest)
  | (.error (.io kind), rest) =>
    (if kind.isTimeout then .ok none else .error (.err (.io kind)), rest)
  | (.error e, rest) => (.error (.err e), rest)

/-! ### A frame is decoded back -/

section

variable {hmac : Hmac} {key : Hash32} {m : Message}

/-- The payload is one that a `BTreeMap` can be. -/
def WellFormed (m : Message) : Prop := (Value.map m.payload).WF

theorem bodyEntries_keys : ((bodyEntries m).map Prod.fst).Nodup := by
  show ["v", "type", "request_id", "payload"].Nodup
  decide

theorem encodeFrameBody_length :
    (encodeFrameBody hmac key m).length = hmacSize + (mapOf (bodyEntries m)).size := by
  rw [encodeFrameBody, List.length_append, Hash32.length_eq, toBodyCanonicalBytes, cbEncode,
    encode_length encode_eq_contentOf]
  rfl

theorem fromBodyMap_bodyEntries :
    fromBodyMap (OrdMap.ofList utf8 (bodyEntries m)) = .ok m := by
  generalize hm : OrdMap.ofList utf8 (bodyEntries m) = map
  have hget : ∀ k, OrdMap.get k map = _ := fun k => hm ▸ get_mapOf
  simp only [bodyEntries, List.reverse_cons, List.reverse_nil, List.nil_append,
    List.cons_append] at hget
  have hv : mapGetUint map "v" = .ok protocolVersion :=
    mapGet_eq_ok.2 ⟨.uint protocolVersion, by simp [hget, OrdMap.get_cons], rfl⟩
  have ht : mapGetString map "type" = .ok m.messageType :=
    mapGet_eq_ok.2 ⟨.string m.messageType, by simp [hget, OrdMap.get_cons], rfl⟩
  have hr : mapGetUint map "request_id" = .ok m.requestId :=
    mapGet_eq_ok.2 ⟨.uint m.requestId, by simp [hget, OrdMap.get_cons], rfl⟩
  have hp : mapGetMap map "payload" = .ok m.payload :=
    mapGet_eq_ok.2 ⟨.map m.payload, by simp [hget, OrdMap.get_cons], rfl⟩
  rw [fromBodyMap, hv, ht, hr, hp]
  rfl

/-- The frame of a message is decoded to it, under the key it was made with. -/
theorem decodeFrameBody_encode (hwf : WellFormed m)
    (hmem : (encodeFrameBody hmac key m).length ≤ maxFrameBodySize) :
    decodeFrameBody hmac key (encodeFrameBody hmac key m) = .ok m := by
  have hbody : (toBodyCanonicalBytes m).length ≤ isizeMax := by
    rw [encodeFrameBody, List.length_append] at hmem
    simp only [maxFrameBodySize, isizeMax] at hmem ⊢
    omega
  have hdec : decode (toBodyCanonicalBytes m) = .ok (mapOf (bodyEntries m)) :=
    decode_cbEncode hbody fun e he => by
      simp only [bodyEntries, List.mem_cons, List.not_mem_nil, or_false] at he
      rcases he with rfl | rfl | rfl | rfl
      · trivial
      · trivial
      · trivial
      · exact hwf
  have hmac32 : (hmac key (toBodyCanonicalBytes m)).bytes.length = hmacSize := Hash32.length_eq _
  rw [decodeFrameBody, if_neg (by rw [encodeFrameBody, List.length_append]; omega)]
  dsimp only
  rw [encodeFrameBody, List.drop_left' hmac32, List.take_left' hmac32, if_neg (not_not.2 rfl),
    fromBodyCanonicalBytes, hdec, mapOf]
  dsimp only
  rw [fromBodyMap_bodyEntries]
  rfl

end

end Myco.Bridge
