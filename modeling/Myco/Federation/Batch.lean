import Mathlib.Data.List.Infix
import Myco.Federation.Handlers

/-!
# Batches of events

The events of a log as they go over the wire: `build_event_batch_payload`,
`parse_event_batch_payload`, `build_request_events_since_payload` and `is_federation_safe_node_type`
of `substrate/src/federation/protocol.rs`, and `pull_events_from_peer` of `federation/mod.rs`.

A batch is parsed to the events that it was built from exactly where none of them is larger than
the receiver allows (`parseEventBatchPayload_build`); the sender does not look at sizes.
-/

namespace Myco.Federation

open Myco.Lib Myco.Canonical Myco.Schema Myco.Substrate Myco.Consensus

/-! ### The wire -/

structure EventForFederation where
  parentHashes : List Hash32
  nodeType : String
  createdAtCycle : UInt64
  contentCanonicalBytes : Bytes
deriving DecidableEq

/-- The event that is sent for a node. -/
def eventOf (n : DagNode) : EventForFederation :=
  ⟨n.parentHashes, n.nodeType, n.createdAtCycle, n.content⟩

def federationReceivedPrefix : String := "federation_received:"

def allowedPrefixes : List String :=
  [rawMaterialPrefix, "sporocarp:", "mutation:", immunePrefix, federationReceivedPrefix,
    populationVotePrefix, populationConsensusReachedPrefix]

def isFederationSafeNodeType (nodeType : String) : Bool :=
  allowedPrefixes.any fun p => startsWith p nodeType

def fedEventMaxContentBytes : Nat := 256 * 1024

def buildRequestEventsSincePayload (sinceNodeHash : Option Hash32) (maxEvents : UInt64) :
    List (String × Value) :=
  OrdMap.ofList utf8 (entryIf "since_node_hash" hashValue sinceNodeHash ++
    [("max_events", .uint (min maxEvents fedEventBatchMaxEvents))])

def eventValue (ev : EventForFederation) : Value :=
  mapOf [("parent_hashes", .array (ev.parentHashes.map hashValue)), ("node_type", .string ev.nodeType),
    ("created_at_cycle", .uint ev.createdAtCycle),
    ("content_canonical_bytes", .bytes ev.contentCanonicalBytes)]

def buildEventBatchPayload (events : List EventForFederation) (isLastBatch : Bool) :
    List (String × Value) :=
  OrdMap.ofList utf8 [("events", .array (events.map eventValue)), ("is_last_batch", .bool isLastBatch)]

structure ParsedEventBatch where
  events : List EventForFederation
  isLastBatch : Bool
deriving DecidableEq

def parseParentHash : Value → Except String Hash32
  | .bytes b => if h : b.length = 32 then .ok ⟨b, h⟩ else .error "parent_hash not 32 Bytes"
  | _ => .error "parent_hash not 32 Bytes"

def eventTooLarge (size : Nat) : String :=
  s!"event content_canonical_bytes size {size} exceeds FED_EVENT_MAX_CONTENT_BYTES ({
    fedEventMaxContentBytes}); batch rejected for T1.8 DoS defense"

def readParentHashes (em : List (String × Value)) : Except String (List Hash32) :=
  match OrdMap.get "parent_hashes" em with
  | some (.array a) => a.mapM parseParentHash
  | _ => .error "parent_hashes missing"

def readNodeType (em : List (String × Value)) : Except String String :=
  match OrdMap.get "node_type" em with
  | some (.string s) => if s ≠ "" then .ok s else .error "node_type missing or empty"
  | _ => .error "node_type missing or empty"

def readCreatedAtCycle (em : List (String × Value)) : Except String UInt64 :=
  match OrdMap.get "created_at_cycle" em with
  | some (.uint n) => .ok n
  | _ => .error "created_at_cycle missing"

def readEventContent (em : List (String × Value)) : Except String Bytes :=
  match OrdMap.get "content_canonical_bytes" em with
  | some (.bytes b) =>
    if b.length > fedEventMaxContentBytes then .error (eventTooLarge b.length) else .ok b
  | _ => .error "content_canonical_bytes missing"

def parseEvent (v : Value) : Except String EventForFederation := do
  let em ← match v with
    | .map m => .ok m
    | _ => .error "event entry not Map"
  let parentHashes ← readParentHashes em
  let nodeType ← readNodeType em
  let createdAtCycle ← readCreatedAtCycle em
  let contentCanonicalBytes ← readEventContent em
  .ok { parentHashes, nodeType, createdAtCycle, contentCanonicalBytes }

def parseEventBatchPayload (payload : List (String × Value)) : Except String ParsedEventBatch := do
  let eventsArray ← match OrdMap.get "events" payload with
    | some (.array a) => .ok a
    | _ => .error "events missing or not Array"
  let events ← eventsArray.mapM parseEvent
  let isLastBatch := match OrdMap.get "is_last_batch" payload with
    | some (.bool b) => b
    | _ => true
  .ok { events, isLastBatch }

/-! ### Pulling -/

/-- What the socket of a peer does when it is asked for events. -/
structure PullWire where
  readTimeout : Except String Unit
  requestWritten : Message → Except String Unit
  responseRead : Message → FrameRead

/-- The frame that asks for events. -/
def pullRequest (sinceNodeHash : Option Hash32) (maxEvents : UInt64) : Message :=
  ⟨"fed_request_events_since", 1, buildRequestEventsSincePayload sinceNodeHash maxEvents⟩

namespace FederationState

def findEstablishedPeer (f : FederationState) (peerSubstrateId : Hash32) : Option Nat :=
  f.peers.findIdx? fun p => p.peerSubstrateId = some peerSubstrateId ∧ p.state = .established

def pullEventsFromPeer (f : FederationState) (peerSubstrateId : Hash32)
    (sinceNodeHash : Option Hash32) (maxEvents : UInt64) (wire : PullWire) :
    Except SubstrateError ParsedEventBatch := do
  if (f.findEstablishedPeer peerSubstrateId).isNone then
    .error (.protocol "pull_events_from_peer: peer not found or not Established")
  else
    wire.readTimeout.mapError fun e => .io e
    let reqMsg := pullRequest sinceNodeHash maxEvents
    (wire.requestWritten reqMsg).mapError fun e => .protocol s!"pull req write: {e}"
    let resp ← (wire.responseRead reqMsg).mapError fun e => .protocol s!"pull resp read: {e}"
    match resp with
    | none => .error (.protocol "pull_events_from_peer: timeout / no FED_EVENT_BATCH response")
    | some respMsg =>
      if respMsg.messageType ≠ "fed_event_batch" then
        .error (.protocol s!"pull_events_from_peer: expected fed_event_batch; got {
          respMsg.messageType}")
      else (parseEventBatchPayload respMsg.payload).mapError .protocol

/-- What is pulled has been read off the wire. -/
theorem pullEventsFromPeer_ok {f : FederationState} {id : Hash32} {since : Option Hash32}
    {maxEvents : UInt64} {wire : PullWire} {batch : ParsedEventBatch}
    (h : f.pullEventsFromPeer id since maxEvents wire = .ok batch) :
    ∃ resp, wire.responseRead (pullRequest since maxEvents) = .ok (some resp) ∧
      resp.messageType = "fed_event_batch" ∧ parseEventBatchPayload resp.payload = .ok batch := by
  rw [pullEventsFromPeer] at h
  split at h
  · cases h
  dsimp only at h
  cases hread : wire.readTimeout with
  | error e =>
    rw [hread] at h
    cases h
  | ok _ =>
    cases hwritten : wire.requestWritten (pullRequest since maxEvents) with
    | error e =>
      rw [hread, hwritten] at h
      cases h
    | ok _ =>
      cases hresp : wire.responseRead (pullRequest since maxEvents) with
      | error e =>
        rw [hread, hwritten, hresp] at h
        cases h
      | ok resp =>
        rw [hread, hwritten, hresp] at h
        cases resp with
        | none => cases h
        | some msg =>
          simp only [Except.mapError, ok_bind] at h
          split at h
          · cases h
          rename_i htype
          refine ⟨msg, rfl, not_not.1 htype, ?_⟩
          cases hparse : parseEventBatchPayload msg.payload with
          | error e =>
            rw [hparse] at h
            cases h
          | ok b =>
            rw [hparse] at h
            cases h
            rfl

/-- A batch that comes in answer to a pull is what the pull returns. -/
theorem pullEventsFromPeer_of_read {f : FederationState} {id : Hash32} {since : Option Hash32}
    {maxEvents : UInt64} {wire : PullWire} {msg : Message} {batch : ParsedEventBatch}
    (hest : (f.findEstablishedPeer id).isSome) (htimeout : wire.readTimeout = .ok ())
    (hwritten : ∀ m, wire.requestWritten m = .ok ())
    (hread : wire.responseRead (pullRequest since maxEvents) = .ok (some msg))
    (htype : msg.messageType = "fed_event_batch")
    (hparse : parseEventBatchPayload msg.payload = .ok batch) :
    f.pullEventsFromPeer id since maxEvents wire = .ok batch := by
  have hsome : (f.findEstablishedPeer id).isNone = false := by
    rw [← Option.not_isSome, hest]
    rfl
  rw [FederationState.pullEventsFromPeer, hsome]
  simp [Except.mapError, htimeout, hwritten, hread, htype, hparse]

end FederationState

/-! ### A batch comes back -/

theorem parseParentHash_hashValue {h : Hash32} : parseParentHash (hashValue h) = .ok h := by
  rw [hashValue, parseParentHash, dif_pos h.length_eq]

theorem mapM_ok {α β : Type} {f : α → Value} {g : Value → Except String β} {k : α → β} {xs : List α}
    (h : ∀ x ∈ xs, g (f x) = .ok (k x)) : (xs.map f).mapM g = .ok (xs.map k) := by
  induction xs with
  | nil => rfl
  | cons x xs ih =>
    rw [List.forall_mem_cons] at h
    rw [List.map_cons, List.mapM_cons, h.1, ih h.2]
    rfl

theorem parseEvent_eventValue {ev : EventForFederation} (ht : ev.nodeType ≠ "") :
    parseEvent (eventValue ev) =
      if ev.contentCanonicalBytes.length > fedEventMaxContentBytes then
        .error (eventTooLarge ev.contentCanonicalBytes.length)
      else .ok ev := by
  rw [eventValue, mapOf]
  generalize hm : OrdMap.ofList utf8 _ = m
  have hget : ∀ k, OrdMap.get k m = _ := fun k => hm ▸ get_mapOf
  simp only [List.reverse_cons, List.reverse_nil, List.nil_append, List.cons_append] at hget
  have h1 : OrdMap.get "parent_hashes" m = some (.array (ev.parentHashes.map hashValue)) := by
    simp [hget, OrdMap.get_cons]
  have h2 : OrdMap.get "node_type" m = some (.string ev.nodeType) := by
    simp [hget, OrdMap.get_cons]
  have h3 : OrdMap.get "created_at_cycle" m = some (.uint ev.createdAtCycle) := by
    simp [hget, OrdMap.get_cons]
  have h4 : OrdMap.get "content_canonical_bytes" m = some (.bytes ev.contentCanonicalBytes) := by
    simp [hget, OrdMap.get_cons]
  have hparents : readParentHashes m = .ok ev.parentHashes := by
    rw [readParentHashes, h1]
    dsimp only
    rw [mapM_ok fun h _ => parseParentHash_hashValue, List.map_id']
  have htype : readNodeType m = .ok ev.nodeType := by
    rw [readNodeType, h2]
    exact if_pos ht
  have hcycle : readCreatedAtCycle m = .ok ev.createdAtCycle := by
    rw [readCreatedAtCycle, h3]
  have hcontent : readEventContent m =
      if ev.contentCanonicalBytes.length > fedEventMaxContentBytes then
        .error (eventTooLarge ev.contentCanonicalBytes.length)
      else .ok ev.contentCanonicalBytes := by
    rw [readEventContent, h4]
  show (readParentHashes m >>= fun _ => _) = _
  rw [hparents, ok_bind, htype, ok_bind, hcycle, ok_bind, hcontent]
  by_cases hlarge : ev.contentCanonicalBytes.length > fedEventMaxContentBytes
  · rw [if_pos hlarge, if_pos hlarge]
    rfl
  · rw [if_neg hlarge, if_neg hlarge]
    rfl

/-- A batch is read back, or refused for the first event that is too large. -/
theorem parseEventBatchPayload_build {events : List EventForFederation} {isLastBatch : Bool}
    (ht : ∀ ev ∈ events, ev.nodeType ≠ "") :
    parseEventBatchPayload (buildEventBatchPayload events isLastBatch) =
      match events.find? fun ev => ev.contentCanonicalBytes.length > fedEventMaxContentBytes with
      | some ev => .error (eventTooLarge ev.contentCanonicalBytes.length)
      | none => .ok ⟨events, isLastBatch⟩ := by
  have hmapM : (events.map eventValue).mapM parseEvent =
      match events.find? fun ev => ev.contentCanonicalBytes.length > fedEventMaxContentBytes with
      | some ev => .error (eventTooLarge ev.contentCanonicalBytes.length)
      | none => .ok events := by
    induction events with
    | nil => rfl
    | cons ev events ih =>
      rw [List.forall_mem_cons] at ht
      rw [List.map_cons, List.mapM_cons, parseEvent_eventValue ht.1, ih ht.2, List.find?_cons]
      by_cases hlarge : ev.contentCanonicalBytes.length > fedEventMaxContentBytes
      · rw [if_pos hlarge, decide_eq_true hlarge]
        rfl
      · rw [if_neg hlarge, decide_eq_false hlarge]
        dsimp only
        cases events.find? fun ev => ev.contentCanonicalBytes.length > fedEventMaxContentBytes <;>
          rfl
  have hevents : OrdMap.get "events" (buildEventBatchPayload events isLastBatch) =
      some (.array (events.map eventValue)) := by
    rw [buildEventBatchPayload, get_mapOf]
    simp [OrdMap.get_cons]
  have hlast : OrdMap.get "is_last_batch" (buildEventBatchPayload events isLastBatch) =
      some (.bool isLastBatch) := by
    rw [buildEventBatchPayload, get_mapOf]
    simp [OrdMap.get_cons]
  unfold parseEventBatchPayload
  simp only [hevents, hlast, ok_bind, hmapM]
  cases events.find? fun ev => ev.contentCanonicalBytes.length > fedEventMaxContentBytes <;> rfl

end Myco.Federation
