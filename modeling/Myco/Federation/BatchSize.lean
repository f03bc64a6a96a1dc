import Myco.Bridge.Frames
import Myco.Federation.Relays
import Myco.Substrate.Ingest

/-!
# The size of a batch

How large the frame is that answers a request for events (`batchFrame_length`), and when it can be
sent and is accepted: the sender counts events and never their bytes, so that this is a matter of
the nodes that are asked for (`batch_accepted_iff`).
-/

namespace Myco.Federation

open Myco.Lib Myco.Canonical Myco.Schema Myco.Substrate Myco.Consensus Myco.Bridge

/-- The bytes that a node takes in a batch. -/
def eventWireSize (n : DagNode) : Nat :=
  83 + (lenVarint n.parentHashes.length).length + 34 * n.parentHashes.length +
    prefixedSize (utf8 n.nodeType).length + prefixedSize n.content.length

/-- The bytes of a frame with a batch of these nodes. -/
def batchFrameSize (ns : List DagNode) : Nat :=
  127 + (lenVarint ns.length).length + (ns.map eventWireSize).sum

section

variable {hmac : Hmac} {key : Hash32} {requestId : UInt64} {localDag : Dag}
  {parsed : ParsedRequestEventsSince} {ns : List DagNode}

theorem size_hashValue {h : Hash32} : (hashValue h).size = 34 := by
  rw [hashValue, Value.size, prefixedSize, h.length_eq, lenVarint_of_lt (by decide)]

theorem size_eventValue {n : DagNode} : (eventValue (eventOf n)).size = eventWireSize n := by
  have hparents : itemsSize (n.parentHashes.map hashValue) = 34 * n.parentHashes.length := by
    rw [itemsSize_eq, List.map_map]
    induction n.parentHashes with
    | nil => rfl
    | cons h hs ih =>
      rw [List.map_cons, List.sum_cons, ih, List.length_cons]
      show (hashValue h).size + _ = _
      rw [size_hashValue]
      omega
  have h1 : keySize "parent_hashes" = 15 := by decide
  have h2 : keySize "node_type" = 11 := by decide
  have h3 : keySize "created_at_cycle" = 18 := by decide
  have h4 : keySize "content_canonical_bytes" = 25 := by decide
  rw [eventValue, size_mapOf]
  · simp only [List.length_cons, List.length_nil, List.map_cons, List.map_nil, List.sum_cons,
      List.sum_nil, Value.size, h1, h2, h3, h4, hparents, List.length_map, eventOf,
      lenVarint_of_lt (show 0 + 1 + 1 + 1 + 1 < 128 by decide), eventWireSize]
    omega
  · show ["parent_hashes", "node_type", "created_at_cycle", "content_canonical_bytes"].Nodup
    decide

theorem size_batch {last : Bool} :
    (Value.map (buildEventBatchPayload (ns.map eventOf) last)).size =
      28 + (lenVarint ns.length).length + (ns.map eventWireSize).sum := by
  have hevents : itemsSize ((ns.map eventOf).map eventValue) = (ns.map eventWireSize).sum := by
    rw [itemsSize_eq, List.map_map, List.map_map]
    congr 1
    exact List.map_congr_left fun n _ => size_eventValue
  have h1 : keySize "events" = 8 := by decide
  have h2 : keySize "is_last_batch" = 15 := by decide
  show (mapOf [("events", .array ((ns.map eventOf).map eventValue)),
    ("is_last_batch", .bool last)]).size = _
  rw [size_mapOf]
  · simp only [List.length_cons, List.length_nil, List.map_cons, List.map_nil, List.sum_cons,
      List.sum_nil, Value.size, h1, h2, hevents, List.length_map,
      lenVarint_of_lt (show 0 + 1 + 1 < 128 by decide)]
    omega
  · show ["events", "is_last_batch"].Nodup
    decide

theorem batchFrame_length : (encodeFrameBody hmac key
    (eventBatchResponse localDag requestId parsed)).length =
      batchFrameSize (requestedNodes localDag parsed) := by
  have h1 : keySize "v" = 3 := by decide
  have h2 : keySize "type" = 6 := by decide
  have h3 : keySize "request_id" = 12 := by decide
  have h4 : keySize "payload" = 9 := by decide
  have h5 : prefixedSize (utf8 "fed_event_batch").length = 16 := by decide
  rw [encodeFrameBody_length, size_mapOf bodyEntries_keys]
  simp only [bodyEntries, eventBatchResponse, List.length_cons, List.length_nil, List.map_cons,
    List.map_nil, List.sum_cons, List.sum_nil, h1, h2, h3, h4,
    lenVarint_of_lt (show 0 + 1 + 1 + 1 + 1 < 128 by decide), size_batch]
  simp only [Value.size, h5, hmacSize, batchFrameSize]
  omega

theorem wellFormed_batch : WellFormed (eventBatchResponse localDag requestId parsed) := by
  have hevent : ∀ ev, (eventValue ev).WF := by
    intro ev
    have hparents : WFItems (ev.parentHashes.map hashValue) := by
      simp [wfItems_iff, hashValue, Value.WF]
    exact mapOf_wf (by simp [Value.WF, hparents])
  have hevents : ∀ ns : List DagNode, WFItems (ns.map (eventValue ∘ eventOf)) := by
    intro ns
    simp [wfItems_iff, hevent]
  exact mapOf_wf (by simp [Value.WF, hevents])

end

/-! ### Batches that arrive -/

/-- The frame can be written, and what the peer decodes from it is a batch. -/
def Delivered (hmac : Hmac) (key : Hash32) (answer : Message) : Prop :=
  ∃ frame msg batch, writeFrame (encodeFrameBody hmac key answer) = .ok frame ∧
    decodeFrameBody hmac key (encodeFrameBody hmac key answer) = .ok msg ∧
    parseEventBatchPayload msg.payload = .ok batch

section

variable {blake3 : Bytes → NodeHash} {hmac : Hmac} {key : Hash32} {requestId : UInt64}
  {l : Ledger blake3} {parsed : ParsedRequestEventsSince}

theorem parse_response_iff :
    (∃ batch, parseEventBatchPayload (eventBatchResponse l.dag requestId parsed).payload =
      .ok batch) ↔
      ∀ n ∈ requestedNodes l.dag parsed, n.content.length ≤ fedEventMaxContentBytes := by
  have htyped : ∀ ev ∈ (requestedNodes l.dag parsed).map eventOf, ev.nodeType ≠ "" := by
    intro ev hev
    obtain ⟨n, hn, rfl⟩ := List.mem_map.1 hev
    exact l.recorded.typed n (requestedNodes_sublist.subset hn)
  rw [eventBatchResponse, parseEventBatchPayload_build htyped]
  constructor
  · rintro ⟨batch, h⟩ n hn
    split at h
    · cases h
    · rename_i hnone
      have := List.find?_eq_none.1 hnone (eventOf n) (List.mem_map_of_mem hn)
      simpa [eventOf] using this
  · intro hsmall
    have hnone : ((requestedNodes l.dag parsed).map eventOf).find?
        (fun ev => ev.contentCanonicalBytes.length > fedEventMaxContentBytes) = none := by
      refine List.find?_eq_none.2 fun ev hev => ?_
      obtain ⟨n, hn, rfl⟩ := List.mem_map.1 hev
      simpa [eventOf] using hsmall n hn
    rw [hnone]
    exact ⟨_, rfl⟩

theorem delivered_iff : Delivered hmac key (eventBatchResponse l.dag requestId parsed) ↔
    (∀ n ∈ requestedNodes l.dag parsed, n.content.length ≤ fedEventMaxContentBytes) ∧
      batchFrameSize (requestedNodes l.dag parsed) ≤ maxFrameBodySize := by
  have hsmall : (∃ batch,
      parseEventBatchPayload (eventBatchResponse l.dag requestId parsed).payload =
      .ok batch) ↔ _ := parse_response_iff
  rw [← hsmall]
  constructor
  · rintro ⟨frame, msg, batch, hframe, hdec, hparse⟩
    have hfits : batchFrameSize (requestedNodes l.dag parsed) ≤ maxFrameBodySize := by
      rw [writeFrame, batchFrame_length] at hframe
      split at hframe
      · cases hframe
      · omega
    rw [decodeFrameBody_encode wellFormed_batch (by rw [batchFrame_length]; exact hfits)] at hdec
    cases hdec
    exact ⟨⟨batch, hparse⟩, hfits⟩
  · rintro ⟨⟨batch, hparse⟩, hfits⟩
    refine ⟨_, _, batch, if_neg ?_, decodeFrameBody_encode wellFormed_batch ?_, hparse⟩
    · rw [batchFrame_length]
      omega
    · rw [batchFrame_length]
      exact hfits

theorem answerTo_parsed {localDag : Dag} {msg answer : Message}
    (hp : parseRequestEventsSincePayload msg.payload = .ok parsed)
    (h : answerTo localDag msg = some answer) :
    answer = eventBatchResponse localDag msg.requestId parsed := by
  rw [answerTo] at h
  split at h
  · cases h
  · rw [hp] at h
    cases h
    rfl

/-- A batch arrives exactly where none of its nodes is too large for the receiver and all of them
together leave room in a frame. -/
theorem batch_arrives_iff {msg answer : Message}
    (hp : parseRequestEventsSincePayload msg.payload = .ok parsed)
    (h : answerTo l.dag msg = some answer) : Delivered hmac key answer ↔
      (∀ n ∈ requestedNodes l.dag parsed, n.content.length ≤ fedEventMaxContentBytes) ∧
        batchFrameSize (requestedNodes l.dag parsed) ≤ maxFrameBodySize := by
  rw [answerTo_parsed hp h]
  exact delivered_iff

end

/-! ### Two logs -/

section

/-- A log of two nodes. -/
def twoNodes : Ledger foldHash :=
  (Ledger.new.push ⟨[], "raw_material:text", 0, [1]⟩).push ⟨[], "raw_material:text", 0, [2]⟩

theorem batch_arrives_two : ∃ answer,
    answerTo twoNodes.dag (pullRequest none 10) = some answer ∧
    (Delivered noHmac (.replicate 0) answer ↔
      (∀ n ∈ requestedNodes twoNodes.dag ⟨none, 10⟩,
        n.content.length ≤ fedEventMaxContentBytes) ∧
      batchFrameSize (requestedNodes twoNodes.dag ⟨none, 10⟩) ≤ maxFrameBodySize) ∧
    batchFrameSize (requestedNodes twoNodes.dag ⟨none, 10⟩) = 336 := by
  have hp : parseRequestEventsSincePayload (pullRequest none 10).payload = .ok ⟨none, 10⟩ := by
    rw [pullRequest, parseRequestEventsSincePayload_build]
    rfl
  have h : answerTo twoNodes.dag (pullRequest none 10) =
      some (eventBatchResponse twoNodes.dag 1 ⟨none, 10⟩) := by
    rw [answerTo, if_neg (by simp [pullRequest]), hp]
    rfl
  exact ⟨_, h, batch_arrives_iff hp h, by decide⟩

/-- Material that the operator may hand in and no peer accepts. -/
def largeBytes : Bytes := List.replicate (fedEventMaxContentBytes + 1) 0

theorem large_material_not_accepted : ∃ x answer, ∃ t : ServerState smallEnv,
    (handleIngestRawMaterial (ingestRequest largeBytes)).exec (stateOf smallEnv []) =
      some (.ok x, t) ∧ Honest t ∧
    answerTo t.ledger.dag (pullRequest none 100) = some answer ∧
    ¬ Delivered noHmac (.replicate 0) answer := by
  have hlen : largeBytes.length = fedEventMaxContentBytes + 1 := List.length_replicate
  obtain ⟨x, t, hexec, n, hn, htype, -, hcontent⟩ :=
    @ingest_first smallEnv largeBytes (by rw [hlen]; decide)
  have hp : parseRequestEventsSincePayload (pullRequest none 100).payload = .ok ⟨none, 100⟩ := by
    rw [pullRequest, parseRequestEventsSincePayload_build]
    rfl
  have h : answerTo t.ledger.dag (pullRequest none 100) =
      some (eventBatchResponse t.ledger.dag 1 ⟨none, 100⟩) := by
    rw [answerTo, if_neg (by simp [pullRequest]), hp]
    rfl
  refine ⟨x, _, t, hexec, honest_of_nodes fun m hm => ?_, h, fun hd => ?_⟩
  · rw [hn] at hm
    rw [List.mem_singleton.1 hm, IsWrapper, htype]
    decide
  · have hr : Recorded smallEnv.blake3 [n] := hn ▸ t.ledger.recorded
    have hsent : requestedNodes t.ledger.dag ⟨none, 100⟩ = [n] := by
      rw [t.ledger.dag_eq, show t.ledger.nodes = [n] from hn, requestedNodes_none hr]
      rfl
    have hsmall := (delivered_iff.1 hd).1 n (by rw [hsent]; exact List.mem_singleton.2 rfl)
    rw [hcontent, encodeRawMaterial_length, prefixedSize, prefixedSize, hlen] at hsmall
    omega

end

end Myco.Federation
