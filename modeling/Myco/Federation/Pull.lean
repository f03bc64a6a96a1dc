import Myco.Federation.Batch
import Myco.Substrate.Tips

/-!
# Pulling events from a peer

`handle_federation_pull_events_from_peer` and `validate_federation_inner` of
`substrate/src/federation/handlers.rs`.

Each event of a batch gets a verdict. Those that are safe are wrapped, each in a node of its own
whose parent is the local tip; the others are dropped, with an immune event for every kind of
offence. All that a pull does to the log is to append such nodes (`extends_pull`), one for each safe
event (`wrapEvents_nodes`).
-/

namespace Myco.Federation

open Myco.Lib Myco.Canonical Myco.Schema Myco.Substrate Myco.Consensus

variable {env : Env}

/-! ### Nested wrappers -/

def maxFederationRecursionDepth : Nat := 5

inductive FederationRecursionReject where
  | depthExceeded (attemptedDepth : Nat)
  | bannedInnerType (depth : Nat) (innerNodeType : String)
  | malformedWrapper (depth : Nat) (reason : String)
deriving DecidableEq

/-- The type and the content of the event in a wrapper. -/
def readWrapper (env : Env) (content : Bytes) (depth : Nat) :
    Except (Fault FederationRecursionReject) (String × Bytes) := do
  let malformed (reason : String) := Fault.err (.malformedWrapper depth reason)
  let decoded ← match decode content with
    | .ok (.map m) => .ok m
    | .ok _ => .error (malformed "federation_received wrapper content is not a Map")
    | .error (.err e) => .error (malformed s!"federation_received wrapper content decode failed: {
        env.canonicalErrorText e}")
    | .error .panic => .error .panic
    | .error .stack => .error .stack
  let innerNodeType ← (mapGetString decoded "peer_event_node_type").mapError fun e =>
    malformed s!"wrapper missing peer_event_node_type: {env.canonicalErrorText e}"
  let innerContent ← (mapGetBytes decoded "peer_event_content_canonical_bytes").mapError fun e =>
    malformed s!"wrapper missing peer_event_content_canonical_bytes: {env.canonicalErrorText e}"
  .ok (innerNodeType, innerContent)

/-- The recursion, with the levels that are left before it is too deep. -/
def validateLevels (env : Env) :
    Nat → String → Bytes → Nat → Except (Fault FederationRecursionReject) Unit
  | 0, _, _, depth => .error (.err (.depthExceeded depth))
  | left + 1, nodeType, content, depth =>
    if ¬ startsWith federationReceivedPrefix nodeType then .ok ()
    else
      match readWrapper env content depth with
      | .error e => .error e
      | .ok (innerNodeType, innerContent) =>
        if !isFederationSafeNodeType innerNodeType then
          .error (.err (.bannedInnerType (depth + 1) innerNodeType))
        else validateLevels env left innerNodeType innerContent (depth + 1)

def validateFederationInner (env : Env) (nodeType : String) (content : Bytes) (depth : Nat) :
    Except (Fault FederationRecursionReject) Unit :=
  validateLevels env (maxFederationRecursionDepth + 1 - depth) nodeType content depth

/-! ### Verdicts -/

inductive Verdict where
  | safe
  | rejected
  | tooDeep (attemptedDepth : Nat)
  | cascade (detail : String)
deriving DecidableEq

/-- What becomes of an event, unless the decoder panics. -/
def verdict (env : Env) (ev : EventForFederation) : Option Verdict :=
  if !isFederationSafeNodeType ev.nodeType then some .rejected
  else
    match validateFederationInner env ev.nodeType ev.contentCanonicalBytes 0 with
    | .ok () => some .safe
    | .error (.err (.depthExceeded attemptedDepth)) => some (.tooDeep attemptedDepth)
    | .error (.err (.bannedInnerType depth ty)) => some (.cascade s!"depth={depth}:{ty}")
    | .error (.err (.malformedWrapper depth reason)) =>
      some (.cascade s!"depth={depth}:<malformed wrapper: {reason}>")
    | .error _ => none

/-- The events of a batch by what becomes of them, in the order of the batch. -/
structure Triage where
  rejectedTypes : List String
  attemptedDepths : List Nat
  cascades : List String
  safeEvents : List EventForFederation
deriving DecidableEq

def Triage.add (t : Triage) (ev : EventForFederation) : Verdict → Triage
  | .safe => { t with safeEvents := t.safeEvents ++ [ev] }
  | .rejected => { t with rejectedTypes := t.rejectedTypes ++ [ev.nodeType] }
  | .tooDeep attemptedDepth => { t with attemptedDepths := t.attemptedDepths ++ [attemptedDepth] }
  | .cascade detail => { t with cascades := t.cascades ++ [detail] }

def triage (env : Env) (events : List EventForFederation) : Option Triage :=
  events.foldlM (fun t ev => (verdict env ev).map (t.add ev)) ⟨[], [], [], []⟩

/-! ### The handler -/

/-- `let _ = emit_immune_sporocarp(..)`, if `offence` holds. -/
def alarmIf (offence : Bool) (detectorId detectorName evidence : String) : Handler env PUnit := do
  if offence then
    let _ ← (emitImmuneSporocarp detectorId detectorName evidence : Handler env NodeHash).attempt

/-- The immune events for what is dropped. -/
def raiseAlarms (peerSubstrateId : Hash32) (t : Triage) : Handler env PUnit := do
  let peer := hexFirst8Bytes peerSubstrateId
  let types := ", ".intercalate t.rejectedTypes
  let details := ", ".intercalate t.cascades
  alarmIf (!t.rejectedTypes.isEmpty) "C35_federation_substrate_private_event_injection"
    "federation_substrate_private_event_injection"
    s!"federation peer {peer} attempted to push {
      t.rejectedTypes.length} substrate-private event(s); types: {types}"
  alarmIf (!t.attemptedDepths.isEmpty) "C43_federation_recursive_injection"
    "federation_recursive_injection"
    s!"federation_recursive_injection: peer {peer} pushed {
      t.attemptedDepths.length} event(s) whose federation_received: nesting exceeded MAX_FEDERATION_RECURSION_DEPTH; attempted_depth={
      t.attemptedDepths.max?.getD 0} max={
      maxFederationRecursionDepth}; entire outer envelope rejected (no partial acceptance)"
  alarmIf (!t.cascades.isEmpty) "C35_federation_substrate_private_event_injection"
    "federation_substrate_private_event_injection"
    s!"federation_substrate_private_event_injection cascade_flag=true: peer {peer} smuggled {
      t.cascades.length} banned/malformed inner event-type(s) inside nested federation_received: wrappers; {details}; entire outer envelope rejected"

def federationReceivedNodeType (peerSubstrateId : Hash32) : String :=
  federationReceivedPrefix ++ hexFirst8Bytes peerSubstrateId

def encodeFederationReceived (env : Env) (peerSubstrateId : Hash32) (ev : EventForFederation) :
    Bytes :=
  cbEncode [("from_peer_substrate_id", hashValue peerSubstrateId),
    ("peer_event_node_type", .string ev.nodeType),
    ("peer_event_parent_hashes", .array (ev.parentHashes.map hashValue)),
    ("peer_event_content_canonical_bytes", .bytes ev.contentCanonicalBytes),
    ("peer_event_original_hash",
      hashValue (merkleHash env.blake3 ev.parentHashes ev.contentCanonicalBytes)),
    ("peer_event_created_at_cycle", .uint ev.createdAtCycle)]

/-- The node that wraps an event, on the local tip. -/
def wrapEvent (peerSubstrateId : Hash32) (ev : EventForFederation) : Handler env NodeHash := do
  let s ← get
  let wrapperNodeType := federationReceivedNodeType peerSubstrateId
  insertNode s!"ingest federation wrapper ({wrapperNodeType})"
    ⟨s.tipParents, wrapperNodeType, s.cycleCounter, encodeFederationReceived env peerSubstrateId ev⟩

def federationEventsReceivedType : String := "federation_events_received"

def encodeFederationEventsReceived (fromPeerSubstrateId : Hash32) (receivedEventHashes : List Hash32)
    (receivedAtUnixNs : Int64) : Bytes :=
  cbEncode [("from_peer_substrate_id", hashValue fromPeerSubstrateId),
    ("received_event_hashes", .array (receivedEventHashes.map hashValue)),
    ("received_at_unix_ns", .timestamp receivedAtUnixNs)]

/-- The marker of a pull that has ingested something. -/
def markReceived (peerSubstrateId : Hash32) (ingestedHashes : List Hash32) :
    Handler env (Option NodeHash) := do
  let now ← readClock
  if ingestedHashes.isEmpty then pure none
  else
    let h ← emitSubstrateEvent federationEventsReceivedType
      (encodeFederationEventsReceived peerSubstrateId ingestedHashes now)
    pure (some h)

def pullResponse (request : Message) (payload : List (String × Value)) : Option Message :=
  respond "federation_pull_events_from_peer_response" request payload

/-- What the handler does with a batch. -/
def ingestBatch (peerSubstrateId : Hash32) (request : Message) (batch : ParsedEventBatch) :
    Handler env (Option Message) := do
  match triage env batch.events with
  | none => Prog.halt
  | some t =>
    raiseAlarms peerSubstrateId t
    let ingestedHashes ← t.safeEvents.mapM (wrapEvent peerSubstrateId)
    let eventHash ← markReceived peerSubstrateId ingestedHashes
    pure (pullResponse request ([
      ("events_received_count", .uint (UInt64.ofNat batch.events.length)),
      ("events_ingested_count", .uint (UInt64.ofNat ingestedHashes.length)),
      ("is_last_batch", .bool batch.isLastBatch)] ++
      entryIf "events_received_event_hash" hashValue eventHash))

/-- `msg.contains("FED_EVENT_MAX_CONTENT_BYTES")` -/
def tellsOversize (msg : String) : Bool := decide (utf8 "FED_EVENT_MAX_CONTENT_BYTES" <:+: utf8 msg)

/-- What the handler does when pulling has failed. -/
def pullFailed (peerSubstrateId : Hash32) (request : Message) (e : SubstrateError) :
    Handler env (Option Message) := do
  match e with
  | .protocol msg =>
    if tellsOversize msg then
      alarmIf true "C62_federation_event_oversized" "federation_event_oversized"
        s!"federation peer {
          hexFirst8Bytes peerSubstrateId} pushed FED_EVENT_BATCH containing an event exceeding FED_EVENT_MAX_CONTENT_BYTES; parser error: {msg}"
      pure (pullResponse request [("events_ingested_count", .uint 0),
        ("events_rejected_count", .uint 1),
        ("rejection_reason", .string s!"C62_federation_event_oversized: {msg}")])
    else throw (.protocol msg)
  | e => throw e

/-- What the handler does about a peer that is revoked. -/
def refuseRevoked (peerSubstrateId : Hash32) (request : Message) : Handler env (Option Message) := do
  alarmIf true "C13_peer_attestation_revoked_egress" "peer_attestation_revoked_egress"
    s!"federation_ingest_blocked: pull from peer {
      hexFirst8Bytes peerSubstrateId} refused — peer is on the owner-revocation list (L1/GOVERNANCE §5.2); a revoked peer's events are not absorbed (inbound half of revocation)"
  pure (pullResponse request [("events_received_count", .uint 0), ("events_ingested_count", .uint 0),
    ("events_rejected_count", .uint 0), ("is_last_batch", .bool true),
    ("rejection_reason",
      .string "C13_peer_attestation_revoked_egress: peer is revoked; ingest refused")])

/-- The node after which the request asks for events. -/
def pullSince (request : Message) : Option Hash32 := bytes32? request.payload "since_node_hash"

def pullMaxEvents (request : Message) : UInt64 :=
  (uint? request.payload "max_events").getD fedEventBatchMaxEvents

/-- The batch that the handler gets from the peer. -/
def pulledBatch (s : ServerState env) (peerSubstrateId : Hash32) (wire : PullWire)
    (request : Message) : Except SubstrateError ParsedEventBatch :=
  s.federation.pullEventsFromPeer peerSubstrateId (pullSince request) (pullMaxEvents request) wire

def handleFederationPullEventsFromPeer (wire : PullWire) (request : Message) :
    Handler env (Option Message) := do
  match bytes32? request.payload "peer_substrate_id" with
  | none => throw (.protocol
      "federation_pull_events_from_peer: peer_substrate_id must be 32 Bytes")
  | some peerSubstrateId =>
    let s ← get
    if peerSubstrateId ∈ s.revokedFederationPeers then refuseRevoked peerSubstrateId request
    else
      match pulledBatch s peerSubstrateId wire request with
      | .error e => pullFailed peerSubstrateId request e
      | .ok batch => ingestBatch peerSubstrateId request batch

/-! ### What a pull appends -/

/-- The types of the nodes that a pull appends. -/
def PullType (nodeType : String) : Prop :=
  startsWith federationReceivedPrefix nodeType ∨ nodeType = federationEventsReceivedType ∨
    startsWith immunePrefix nodeType

theorem extends_alarmIf {offence : Bool} {id name evidence : String} :
    Within (Extends PullType) (alarmIf offence id name evidence : Handler env PUnit) := by
  unfold alarmIf
  split
  · exact within_bind (within_attempt (extends_emitImmuneSporocarp
      (.inr (.inr startsWith_append)))) fun _ => within_pure
  · exact within_pure

theorem extends_raiseAlarms {id : Hash32} {t : Triage} :
    Within (Extends PullType) (raiseAlarms id t : Handler env PUnit) :=
  within_bind extends_alarmIf fun _ => within_bind extends_alarmIf fun _ => extends_alarmIf

theorem extends_wrapEvent {id : Hash32} {ev : EventForFederation} :
    Within (Extends PullType) (wrapEvent id ev : Handler env NodeHash) :=
  extends_insertNode (fun _ => rfl) fun _ => .inl startsWith_append

theorem extends_markReceived {id : Hash32} {hashes : List Hash32} :
    Within (Extends PullType) (markReceived id hashes : Handler env (Option NodeHash)) := by
  refine within_bind extends_readClock fun now => ?_
  split
  · exact within_pure
  · exact within_bind (extends_emitSubstrateEvent (.inr (.inl rfl))) fun _ => within_pure

theorem extends_ingestBatch {id : Hash32} {request : Message} {batch : ParsedEventBatch} :
    Within (Extends PullType) (ingestBatch id request batch : Handler env (Option Message)) := by
  unfold ingestBatch
  split
  · exact within_halt
  · exact within_bind extends_raiseAlarms fun _ =>
      within_bind (within_mapM fun _ _ => extends_wrapEvent) fun _ =>
        within_bind extends_markReceived fun _ => within_pure

theorem extends_pullFailed {id : Hash32} {request : Message} {e : SubstrateError} :
    Within (Extends PullType) (pullFailed id request e : Handler env (Option Message)) := by
  unfold pullFailed
  split
  · split
    · exact within_bind extends_alarmIf fun _ => within_pure
    · exact within_throw
  · exact within_throw

theorem extends_pull {wire : PullWire} {request : Message} : Within (Extends PullType)
    (handleFederationPullEventsFromPeer wire request : Handler env (Option Message)) := by
  unfold handleFederationPullEventsFromPeer
  split
  · exact within_throw
  · refine within_bind within_get fun s => ?_
    split
    · exact within_bind extends_alarmIf fun _ => within_pure
    · split
      · exact extends_pullFailed
      · exact extends_ingestBatch

/-! ### The verdicts of a batch -/

/-- Nothing has been dropped. -/
structure Triage.Quiet (t : Triage) : Prop where
  rejectedTypes : t.rejectedTypes = []
  attemptedDepths : t.attemptedDepths = []
  cascades : t.cascades = []

theorem Triage.add_quiet {t : Triage} {ev : EventForFederation} {v : Verdict} :
    (t.add ev v).Quiet ↔ t.Quiet ∧ v = .safe := by
  refine ⟨fun h => ?_, ?_⟩
  · cases v with
    | safe => exact ⟨⟨h.1, h.2, h.3⟩, rfl⟩
    | rejected => exact absurd h.1 (by simp [Triage.add])
    | tooDeep depth => exact absurd h.2 (by simp [Triage.add])
    | cascade detail => exact absurd h.3 (by simp [Triage.add])
  · rintro ⟨h, rfl⟩
    exact ⟨h.1, h.2, h.3⟩

theorem Triage.add_safeEvents {t : Triage} {ev : EventForFederation} {v : Verdict} :
    (t.add ev v).safeEvents = t.safeEvents ++ if v = .safe then [ev] else [] := by
  cases v <;> simp [Triage.add]

theorem triage_from {events : List EventForFederation} {t0 t : Triage}
    (h : events.foldlM (fun t ev => (verdict env ev).map (t.add ev)) t0 = some t) :
    t.safeEvents = t0.safeEvents ++ events.filter (fun ev => verdict env ev = some .safe) ∧
    (t.Quiet ↔ t0.Quiet ∧ ∀ ev ∈ events, verdict env ev = some .safe) := by
  induction events generalizing t0 with
  | nil =>
    cases h
    simp
  | cons ev events ih =>
    rw [List.foldlM_cons, Option.bind_eq_bind, Option.bind_eq_some_iff] at h
    obtain ⟨t1, h1, h2⟩ := h
    obtain ⟨v, hv, rfl⟩ := Option.map_eq_some_iff.1 h1
    obtain ⟨hsafe, hquiet⟩ := ih h2
    rw [hsafe, hquiet, Triage.add_safeEvents, Triage.add_quiet, List.forall_mem_cons, hv,
      List.append_assoc]
    refine ⟨?_, by simp [and_assoc]⟩
    by_cases hs : v = .safe
    · rw [List.filter_cons_of_pos (by simp [hv, hs]), if_pos hs]
      rfl
    · rw [List.filter_cons_of_neg (by simp [hv, hs]), if_neg hs]
      rfl

theorem triage_safeEvents {events : List EventForFederation} {t : Triage}
    (h : triage env events = some t) :
    t.safeEvents = events.filter fun ev => verdict env ev = some .safe := by
  have := (triage_from h).1
  simpa using this

theorem triage_quiet {events : List EventForFederation} {t : Triage}
    (h : triage env events = some t) : t.Quiet ↔ ∀ ev ∈ events, verdict env ev = some .safe := by
  rw [(triage_from h).2]
  exact ⟨fun hq => hq.2, fun hq => ⟨⟨rfl, rfl, rfl⟩, hq⟩⟩

/-! ### The wrappers -/

/-- The node wraps the event. -/
structure Wraps (env : Env) (peerSubstrateId : Hash32) (ev : EventForFederation) (n : DagNode) :
    Prop where
  nodeType : n.nodeType = federationReceivedNodeType peerSubstrateId
  content : n.content = encodeFederationReceived env peerSubstrateId ev
  fits : n.content.length ≤ isizeMax

def IsWrapper (n : DagNode) : Prop := startsWith federationReceivedPrefix n.nodeType

instance (n : DagNode) : Decidable (IsWrapper n) := inferInstanceAs (Decidable (startsWith _ _))

def wrappersOf (nodes : List DagNode) : List DagNode := nodes.filter fun n => IsWrapper n

section

variable {s t : ServerState env} {id : Hash32} {ev : EventForFederation}

theorem Wraps.isWrapper {n : DagNode} (h : Wraps env id ev n) : IsWrapper n := by
  rw [IsWrapper, h.nodeType]
  exact startsWith_append

theorem isWrapper_of_wraps {evs : List EventForFederation} {ws : List DagNode}
    (h : List.Forall₂ (Wraps env id) evs ws) : ∀ n ∈ ws, IsWrapper n := by
  induction h with
  | nil => simp
  | cons hw _ ih => exact List.forall_mem_cons.2 ⟨hw.isWrapper, ih⟩

theorem exists_wrapper {evs : List EventForFederation} {ws : List DagNode}
    (h : List.Forall₂ (Wraps env id) evs ws) (hev : ev ∈ evs) : ∃ n ∈ ws, Wraps env id ev n := by
  induction h with
  | nil => cases hev
  | cons hw _ ih =>
    rcases List.mem_cons.1 hev with rfl | hev
    · exact ⟨_, List.mem_cons_self, hw⟩
    · obtain ⟨n, hn, hwn⟩ := ih hev
      exact ⟨n, List.mem_cons_of_mem _ hn, hwn⟩

theorem wraps_node {c : Insertion} (ht : c.nodeType = federationReceivedNodeType id)
    (hc : c.content = encodeFederationReceived env id ev) (hmem : c.content.length ≤ isizeMax) :
    Wraps env id ev (c.node env.blake3) :=
  ⟨ht, hc, hmem⟩

theorem wrapEvent_cases {r : Except SubstrateError NodeHash}
    (h : (wrapEvent id ev).exec s = some (r, t)) :
    (∃ e, r = .error e ∧ t.nodes = s.nodes) ∨
    ∃ n, r = .ok n.hash ∧ t.nodes = s.nodes ++ [n] ∧ Wraps env id ev n := by
  rw [wrapEvent, Prog.exec_get_bind] at h
  rcases insertNode_tip_cases h (List.append_nil _).symm with ⟨e, he, hn⟩ | ⟨hr, hn, hmem⟩
  · exact .inl ⟨e, he, hn⟩
  · exact .inr ⟨_, hr, hn, wraps_node rfl rfl hmem⟩

/-- One wrapper for each event, in their order. -/
theorem wrapEvents_nodes {evs : List EventForFederation} {hashes : List NodeHash}
    (h : (evs.mapM (wrapEvent id)).exec s = some (.ok hashes, t)) :
    ∃ ws, t.nodes = s.nodes ++ ws ∧ List.Forall₂ (Wraps env id) evs ws := by
  induction evs generalizing s hashes with
  | nil =>
    cases h
    exact ⟨[], by simp, .nil⟩
  | cons ev evs ih =>
    rw [List.mapM_cons] at h
    rcases Prog.exec_bind_eq_some.1 h with ⟨e, -, he⟩ | ⟨hash, u, h1, h2⟩
    · cases he
    rcases wrapEvent_cases h1 with ⟨e, he, -⟩ | ⟨n, -, hn, hw⟩
    · cases he
    rcases Prog.exec_bind_eq_some.1 h2 with ⟨e, -, he⟩ | ⟨rest, v, h3, h4⟩
    · cases he
    cases h4
    obtain ⟨ws, hns, hws⟩ := ih h3
    exact ⟨n :: ws, by rw [hns, hn, List.append_assoc]; rfl, .cons hw hws⟩

theorem adds_alarmIf {offence : Bool} {detectorId name evidence : String} :
    Within (Adds fun n => ¬ IsWrapper n)
      (alarmIf offence detectorId name evidence : Handler env PUnit) := by
  unfold alarmIf
  split
  · exact within_bind (within_attempt (adds_emitImmuneSporocarp fun n h =>
      not_startsWith h (by decide))) fun _ => within_pure
  · exact within_pure

theorem adds_raiseAlarms {tr : Triage} :
    Within (Adds fun n => ¬ IsWrapper n) (raiseAlarms id tr : Handler env PUnit) :=
  within_bind adds_alarmIf fun _ => within_bind adds_alarmIf fun _ => adds_alarmIf

theorem adds_pullFailed {request : Message} {e : SubstrateError} :
    Within (Adds fun n => ¬ IsWrapper n)
      (pullFailed id request e : Handler env (Option Message)) := by
  unfold pullFailed
  split
  · split
    · exact within_bind adds_alarmIf fun _ => within_pure
    · exact within_throw
  · exact within_throw

theorem adds_markReceived {hashes : List Hash32} : Within (Adds fun n => ¬ IsWrapper n)
    (markReceived id hashes : Handler env (Option NodeHash)) := by
  refine within_bind adds_readClock fun now => ?_
  split
  · exact within_pure
  · refine within_bind (adds_emitSubstrateEvent fun n h _ _ => ?_) fun _ => within_pure
    rw [IsWrapper, h]
    decide

/-- All that ingesting a batch appends besides is a wrapper for an event that is safe. -/
theorem ingestBatch_adds {request : Message} {batch : ParsedEventBatch} :
    Within (Adds fun n => ¬ IsWrapper n ∨ ∃ ev ∈ batch.events, verdict env ev = some .safe ∧
      Wraps env id ev n) (ingestBatch id request batch : Handler env (Option Message)) := by
  have hmono : ∀ {α : Type} {m : Handler env α}, Within (Adds fun n => ¬ IsWrapper n) m →
      Within (Adds fun n => ¬ IsWrapper n ∨ ∃ ev ∈ batch.events, verdict env ev = some .safe ∧
        Wraps env id ev n) m := fun h => h.mono fun _ _ ha => ha.mono fun _ => .inl
  unfold ingestBatch
  split
  · exact within_halt
  · rename_i tr htr
    refine within_bind (hmono adds_raiseAlarms) fun _ => within_bind (within_mapM fun ev hev => ?_)
      fun _ => within_bind (hmono adds_markReceived) fun _ => within_pure
    rw [triage_safeEvents htr, List.mem_filter] at hev
    exact within_bind within_get fun _ => adds_insertNode fun hmem =>
      .inr ⟨ev, hev.1, by simpa using hev.2, wraps_node rfl rfl hmem⟩

/-- A pull ingests what it has pulled, or appends no wrapper. -/
theorem pull_cases {wire : PullWire} {request : Message}
    {r : Except SubstrateError (Option Message)}
    (h : (handleFederationPullEventsFromPeer wire request).exec s = some (r, t)) :
    Adds (fun n => ¬ IsWrapper n) s t ∧ (∀ id, bytes32? request.payload "peer_substrate_id" = some id →
      id ∈ s.revokedFederationPeers ∨ ∃ e, pulledBatch s id wire request = .error e) ∨
    ∃ id batch, bytes32? request.payload "peer_substrate_id" = some id ∧
      id ∉ s.revokedFederationPeers ∧ pulledBatch s id wire request = .ok batch ∧
      (ingestBatch id request batch).exec s = some (r, t) := by
  rw [handleFederationPullEventsFromPeer] at h
  cases hid : bytes32? request.payload "peer_substrate_id" with
  | none =>
    rw [hid] at h
    exact .inl ⟨within_throw s r t h, nofun⟩
  | some id =>
    rw [hid] at h
    dsimp only at h
    rw [Prog.exec_get_bind] at h
    by_cases hrev : id ∈ s.revokedFederationPeers
    · rw [if_pos hrev] at h
      refine .inl ⟨within_bind adds_alarmIf (fun _ => within_pure) s r t h, fun id' hid' => .inl ?_⟩
      cases hid'
      exact hrev
    · rw [if_neg hrev] at h
      cases hb : pulledBatch s id wire request with
      | error e =>
        rw [hb] at h
        refine .inl ⟨adds_pullFailed s r t h, fun id' hid' => .inr ⟨e, ?_⟩⟩
        cases hid'
        exact hb
      | ok batch =>
        rw [hb] at h
        exact .inr ⟨id, batch, rfl, hrev, hb, h⟩

theorem wrappersOf_adds (h : Adds (fun n => ¬ IsWrapper n) s t) :
    wrappersOf t.nodes = wrappersOf s.nodes := by
  obtain ⟨ns, hn, hns⟩ := h.nodes
  have hnone : ns.filter (fun n => IsWrapper n) = [] :=
    List.filter_eq_nil_iff.2 fun n hm => by simpa using hns n hm
  rw [wrappersOf, hn, List.filter_append, hnone, List.append_nil]
  rfl

/-- A batch that is ingested leaves one more wrapper for each event that is safe. -/
theorem ingestBatch_wrappers {request : Message} {batch : ParsedEventBatch} {x : Option Message}
    (h : (ingestBatch id request batch).exec s = some (.ok x, t)) :
    ∃ ws, wrappersOf t.nodes = wrappersOf s.nodes ++ ws ∧ List.Forall₂ (Wraps env id)
      (batch.events.filter fun ev => verdict env ev = some .safe) ws := by
  unfold ingestBatch at h
  split at h
  · cases h
  · rename_i tr htr
    rcases Prog.exec_bind_eq_some.1 h with ⟨e, -, he⟩ | ⟨_, u, h1, h2⟩
    · cases he
    rcases Prog.exec_bind_eq_some.1 h2 with ⟨e, -, he⟩ | ⟨hashes, v, h3, h4⟩
    · cases he
    rcases Prog.exec_bind_eq_some.1 h4 with ⟨e, -, he⟩ | ⟨mark, w, h5, h6⟩
    · cases he
    cases h6
    obtain ⟨ws, hn, hws⟩ := wrapEvents_nodes h3
    rw [triage_safeEvents htr] at hws
    refine ⟨ws, ?_, hws⟩
    have hall : ws.filter (fun n => IsWrapper n) = ws := by
      exact List.filter_eq_self.2 fun n hm => by simpa using isWrapper_of_wraps hws n hm
    rw [wrappersOf_adds (adds_markReceived _ _ _ h5), wrappersOf, hn, List.filter_append, hall,
      ← wrappersOf_adds (adds_raiseAlarms _ _ _ h1)]
    rfl

end

end Myco.Federation
