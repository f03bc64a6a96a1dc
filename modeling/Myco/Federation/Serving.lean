import Myco.Federation.Batch

/-!
# Serving events

The batch that `progress_peers` of `substrate/src/federation/mod.rs` builds for a peer that asks for
events. It is a stretch of the log as it stands, whatever its nodes are (`requestedNodes_sublist`);
what `progressEstablished` reports as sent are the hashes of its events
(`progressEstablished_answers`).
-/

namespace Myco.Federation

open Myco.Lib Myco.Canonical Myco.Schema Myco.Substrate

variable {blake3 : Bytes → NodeHash}

/-! ### The answer to a request -/

/-- The nodes that are sent for a request. -/
def requestedNodes (localDag : Dag) (parsed : ParsedRequestEventsSince) : List DagNode :=
  enumerateEventsForFederation localDag parsed.sinceNodeHash parsed.maxEvents.toNat

def isLastBatch (localDag : Dag) (parsed : ParsedRequestEventsSince) : Bool :=
  (requestedNodes localDag parsed).length < parsed.maxEvents.toNat

/-- The frame that answers a request. -/
def eventBatchResponse (localDag : Dag) (requestId : UInt64) (parsed : ParsedRequestEventsSince) :
    Message :=
  ⟨"fed_event_batch", requestId, buildEventBatchPayload ((requestedNodes localDag parsed).map eventOf)
    (isLastBatch localDag parsed)⟩

/-- The answer to a frame, if it asks for events. -/
def answerTo (localDag : Dag) (msg : Message) : Option Message :=
  if msg.messageType ≠ "fed_request_events_since" then none
  else (parseRequestEventsSincePayload msg.payload).toOption.map
    (eventBatchResponse localDag msg.requestId)

def eventHash (blake3 : Bytes → NodeHash) (ev : EventForFederation) : NodeHash :=
  merkleHash blake3 ev.parentHashes ev.contentCanonicalBytes

theorem min_min_right {a b : UInt64} : min (min a b) b = min a b := by
  show (if (if a ≤ b then a else b) ≤ b then (if a ≤ b then a else b) else b) =
    if a ≤ b then a else b
  by_cases h : a ≤ b
  · rw [if_pos h, if_pos h]
  · rw [if_neg h, ite_self]

/-- A request is read as it was meant, with as many events as may be asked for. -/
theorem parseRequestEventsSincePayload_build {sinceNodeHash : Option Hash32} {maxEvents : UInt64} :
    parseRequestEventsSincePayload (buildRequestEventsSincePayload sinceNodeHash maxEvents) =
      .ok ⟨sinceNodeHash, min maxEvents fedEventBatchMaxEvents⟩ := by
  have hsince : OrdMap.get "since_node_hash" (buildRequestEventsSincePayload sinceNodeHash maxEvents) =
      sinceNodeHash.map hashValue := by
    rw [buildRequestEventsSincePayload, get_mapOf]
    cases sinceNodeHash <;> simp [entryIf, OrdMap.get_cons]
  have hmax : OrdMap.get "max_events" (buildRequestEventsSincePayload sinceNodeHash maxEvents) =
      some (.uint (min maxEvents fedEventBatchMaxEvents)) := by
    rw [buildRequestEventsSincePayload, get_mapOf]
    cases sinceNodeHash <;> simp [entryIf, OrdMap.get_cons]
  have hopt : optionalBytes32 (buildRequestEventsSincePayload sinceNodeHash maxEvents)
      "since_node_hash" = .ok sinceNodeHash := by
    rw [optionalBytes32, hsince]
    cases sinceNodeHash with
    | none => rfl
    | some h =>
      rw [Option.map_some]
      dsimp only
      rw [bytes32?_eq (h := h) (by rw [hsince]; rfl)]
  rw [parseRequestEventsSincePayload, hopt, hmax]
  show Except.ok _ = Except.ok _
  dsimp only
  rw [min_min_right]

/-- A peer that is not revoked is sent the answer, and reported as having been sent its events. -/
theorem progressEstablished_answers {localDag : Dag} {revokedPeers : List Hash32} {wire : Wire}
    {peer : PeerConnection} {peerId : Hash32} {msg answer : Message}
    (hstate : peer.state = .established) (hid : peer.peerSubstrateId = some peerId)
    (hrev : peerId ∉ revokedPeers) (hframe : wire.frame = .ok (some msg))
    (hwritten : wire.written = .ok ()) (h : answerTo localDag msg = some answer) :
    ∃ events last, answer.payload = buildEventBatchPayload events last ∧
      progressEstablished blake3 localDag revokedPeers wire peer =
        ⟨peer, [.eventsSent peerId (events.map (eventHash blake3))], false⟩ := by
  rw [answerTo] at h
  split at h
  · cases h
  rename_i htype
  obtain ⟨parsed, hparsed, rfl⟩ := Option.map_eq_some_iff.1 h
  refine ⟨(requestedNodes localDag parsed).map eventOf, _, rfl, ?_⟩
  have hok : parseRequestEventsSincePayload msg.payload = .ok parsed := toOption_eq_some.1 hparsed
  rw [progressEstablished, hstate, hid]
  dsimp only
  rw [hframe]
  dsimp only
  rw [if_neg htype, if_neg hrev, hok, hwritten, List.map_map]
  rfl

/-! ### What is sent -/

section

variable {localDag : Dag} {parsed : ParsedRequestEventsSince} {ns : List DagNode}

theorem requestedNodes_sublist :
    (requestedNodes localDag parsed).Sublist localDag.iterInInsertionOrder := by
  unfold requestedNodes enumerateEventsForFederation
  refine (List.take_sublist ..).trans ?_
  split
  · exact .refl _
  · exact (List.drop_sublist ..).trans (List.dropWhile_sublist _)

/-- Without a hash, from the first node on. -/
theorem requestedNodes_none (hr : Recorded blake3 ns) {size : UInt64} :
    requestedNodes (.ofNodes ns) ⟨none, size⟩ = ns.take size.toNat := by
  rw [requestedNodes, enumerateEventsForFederation, Dag.iter_ofNodes hr.nodup]

/-- With the hash of a node, from the next one on. -/
theorem requestedNodes_some {xs ys : List DagNode} {n : DagNode}
    (hr : Recorded blake3 (xs ++ n :: ys)) {size : UInt64} :
    requestedNodes (.ofNodes (xs ++ n :: ys)) ⟨some n.hash, size⟩ = ys.take size.toNat := by
  have hnew : ∀ m ∈ xs, m.hash ≠ n.hash := by
    intro m hm heq
    have hnodup := hr.nodup
    rw [List.map_append, List.map_cons, List.nodup_append] at hnodup
    exact hnodup.2.2 _ (List.mem_map_of_mem hm) _ List.mem_cons_self heq
  have hdrop : (xs ++ n :: ys).dropWhile (fun m : DagNode => m.hash ≠ n.hash) = n :: ys := by
    rw [List.dropWhile_append_of_pos fun m hm => by simpa using hnew m hm]
    simp
  rw [requestedNodes, enumerateEventsForFederation, Dag.iter_ofNodes hr.nodup]
  dsimp only
  rw [hdrop, List.drop_one, List.tail_cons]

end

end Myco.Federation
