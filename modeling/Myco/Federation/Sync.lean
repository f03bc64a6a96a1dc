import Myco.Federation.BatchSize

/-!
# Syncing with a peer

A log is fetched batch by batch: each request is for what follows the last event of the batch
before, until the peer marks a batch as the last one. Requests and answers go over the connection as
frames. A peer whose answer is larger than a frame may be closes the connection, for it has counted
the events and not their bytes. So a sync brings the log just if its batches arrive
(`sync_complete_iff`).
-/

namespace Myco.Federation

open Myco.Lib Myco.Canonical Myco.Schema Myco.Substrate Myco.Bridge

variable {blake3 : Bytes → NodeHash}

/-! ### The sync -/

/-- An established peer to pull from, and the session key of its connection. -/
structure Link where
  hmac : Hmac
  key : Hash32
  errorText : Fault BridgeError → String
  federation : FederationState
  peerSubstrateId : Hash32
  established : (federation.findEstablishedPeer peerSubstrateId).isSome

namespace Link

variable (link : Link)

/-- What `read_fed_frame` finds of a message that `write_fed_frame` has sent. Where it could not be
written the connection is closed, and there is nothing to be read. -/
def transmit (m : Message) : FrameRead :=
  let frameBody := encodeFrameBody link.hmac link.key m
  match writeFrame frameBody with
  | .error _ => .ok none
  | .ok _ =>
    match decodeFrameBody link.hmac link.key frameBody with
    | .error e => .error (link.errorText e)
    | .ok msg => .ok (some msg)

/-- What the peer answers a request that has come to it with. -/
def served (localDag : Dag) (request : Message) : FrameRead :=
  match link.transmit request with
  | .ok (some msg) =>
    match answerTo localDag msg with
    | some answer => link.transmit answer
    | none => .ok none
  | _ => .ok none

end Link

/-- A request, the answer of the peer, and the batch that is read from it. -/
def syncRound (link : Link) (localDag : Dag) (maxEvents : UInt64) (since : Option Hash32) :
    Except SubstrateError ParsedEventBatch :=
  link.federation.pullEventsFromPeer link.peerSubstrateId since maxEvents
    ⟨.ok (), fun _ => .ok (), link.served localDag⟩

/-- The hash of the last event that has come. -/
def nextSince (blake3 : Bytes → NodeHash) (since : Option Hash32) (batch : ParsedEventBatch) :
    Option Hash32 :=
  (batch.events.getLast?.map (eventHash blake3)).or since

/-- The batches up to the last one, put together, unless the rounds do not suffice. -/
def syncLoop (blake3 : Bytes → NodeHash) (link : Link) (localDag : Dag) (maxEvents : UInt64) :
    Nat → Option Hash32 → Option (Except SubstrateError (List EventForFederation))
  | 0, _ => none
  | rounds + 1, since =>
    match syncRound link localDag maxEvents since with
    | .error e => some (.error e)
    | .ok batch =>
      if batch.isLastBatch then some (.ok batch.events)
      else (syncLoop blake3 link localDag maxEvents rounds (nextSince blake3 since batch)).map
        fun rest => rest.map (batch.events ++ ·)

/-! ### One round -/

/-- As many events as the receiver asks for. -/
def batchSize (maxEvents : UInt64) : Nat := (min maxEvents fedEventBatchMaxEvents).toNat

/-- The nodes of a batch fit into a frame, and the receiver allows each of them. -/
structure Arrives (ns : List DagNode) : Prop where
  allowed : ∀ n ∈ ns, n.content.length ≤ fedEventMaxContentBytes
  fits : batchFrameSize ns ≤ maxFrameBodySize

section

variable {link : Link} {localDag : Dag} {xs ys ns : List DagNode} {size : UInt64}
  {since : Option Hash32} {events : List EventForFederation}

/-- From the last of the nodes that have come on, the next ones come. -/
theorem requestedNodes_after (size : UInt64) (hr : Recorded blake3 (xs ++ ys)) :
    requestedNodes (.ofNodes (xs ++ ys)) ⟨xs.getLast?.map DagNode.hash, size⟩ =
      ys.take size.toNat := by
  rcases List.eq_nil_or_concat xs with rfl | ⟨front, n, rfl⟩
  · exact requestedNodes_none hr
  · rw [List.concat_eq_append, List.append_assoc] at hr ⊢
    rw [List.getLast?_append, List.getLast?_singleton, Option.some_or]
    exact requestedNodes_some hr

theorem batchSize_pos_iff : 0 < batchSize size ↔ 0 < size := by
  have hmin : batchSize size =
      (if size ≤ fedEventBatchMaxEvents then size else fedEventBatchMaxEvents).toNat := rfl
  rw [hmin, UInt64.lt_iff_toNat_lt]
  split
  · exact Iff.rfl
  · rename_i hlarge
    rw [UInt64.not_le, UInt64.lt_iff_toNat_lt] at hlarge
    exact ⟨fun _ => (Nat.zero_le _).trans_lt hlarge, fun _ => by decide⟩

theorem arrives_nil : Arrives [] := ⟨nofun, by decide⟩

/-- A message that fits into a frame is read as it was written. -/
theorem Link.transmit_of_fits {m : Message} (hwf : WellFormed m)
    (hfits : (encodeFrameBody link.hmac link.key m).length ≤ maxFrameBodySize) :
    link.transmit m = .ok (some m) := by
  rw [transmit, decodeFrameBody_encode hwf hfits, writeFrame, if_neg (by omega)]

theorem Link.transmit_of_large {m : Message}
    (hlarge : maxFrameBodySize < (encodeFrameBody link.hmac link.key m).length) :
    link.transmit m = .ok none := by
  rw [transmit, writeFrame, if_pos hlarge]

theorem Link.transmit_request :
    link.transmit (pullRequest since size) = .ok (some (pullRequest since size)) := by
  obtain ⟨es, hes, hkeys, hwf, hsize⟩ : ∃ es, (pullRequest since size).payload =
      OrdMap.ofList utf8 es ∧ (es.map Prod.fst).Nodup ∧ (∀ e ∈ es, e.2.WF) ∧
      (es.map fun e => keySize e.1 + e.2.size).sum + (lenVarint es.length).length ≤ 100 := by
    refine ⟨_, rfl, ?_⟩
    have h1 : keySize "since_node_hash" = 17 := by decide
    have h2 : keySize "max_events" = 12 := by decide
    cases since with
    | none =>
      refine ⟨show ["max_events"].Nodup by decide, by simp [entryIf, Value.WF], ?_⟩
      simp [entryIf, Value.size, h2, lenVarint_of_lt (show 1 < 128 by decide)]
    | some h =>
      refine ⟨show ["since_node_hash", "max_events"].Nodup by decide,
        by simp [entryIf, Value.WF, hashValue], ?_⟩
      simp [entryIf, Value.size, h1, h2, size_hashValue, lenVarint_of_lt (show 2 < 128 by decide)]
  refine transmit_of_fits (by rw [WellFormed, hes]; exact mapOf_wf hwf) ?_
  have h1 : keySize "v" = 3 := by decide
  have h2 : keySize "type" = 6 := by decide
  have h3 : keySize "request_id" = 12 := by decide
  have h4 : keySize "payload" = 9 := by decide
  have h5 : prefixedSize (utf8 "fed_request_events_since").length = 25 := by decide
  have hpayload : (Value.map (pullRequest since size).payload).size = _ :=
    (congrArg (fun es => (Value.map es).size) hes).trans (size_mapOf hkeys)
  rw [encodeFrameBody_length, size_mapOf bodyEntries_keys]
  simp only [bodyEntries, List.length_cons, List.length_nil, List.map_cons, List.map_nil,
    List.sum_cons, List.sum_nil, h1, h2, h3, h4,
    lenVarint_of_lt (show 0 + 1 + 1 + 1 + 1 < 128 by decide), hpayload]
  simp only [pullRequest, Value.size, h5, hmacSize, maxFrameBodySize]
  omega

/-- What the peer sends for a request of what comes after `xs`. -/
theorem Link.served_after (size : UInt64) (hr : Recorded blake3 (xs ++ ys)) :
    ∃ answer, link.served (.ofNodes (xs ++ ys)) (pullRequest (xs.getLast?.map DagNode.hash) size) =
      link.transmit answer ∧ WellFormed answer ∧ answer.messageType = "fed_event_batch" ∧
      answer.payload = buildEventBatchPayload ((ys.take (batchSize size)).map eventOf)
        (decide ((ys.take (batchSize size)).length < batchSize size)) ∧
      (encodeFrameBody link.hmac link.key answer).length =
        batchFrameSize (ys.take (batchSize size)) := by
  have hnodes := requestedNodes_after (min size fedEventBatchMaxEvents) hr
  refine ⟨eventBatchResponse (.ofNodes (xs ++ ys)) 1
    ⟨xs.getLast?.map DagNode.hash, min size fedEventBatchMaxEvents⟩, ?_, wellFormed_batch, rfl,
    ?_, ?_⟩
  · rw [served, transmit_request]
    dsimp only
    rw [answerTo, if_neg (by simp [pullRequest]), pullRequest,
      parseRequestEventsSincePayload_build]
    rfl
  · dsimp only [eventBatchResponse, isLastBatch]
    rw [hnodes]
    rfl
  · rw [batchFrame_length, hnodes]
    rfl

/-- A round brings the next batch, if it arrives, and fails if it does not. -/
theorem syncRound_after (link : Link) (size : UInt64) (hr : Recorded blake3 (xs ++ ys)) :
    (Arrives (ys.take (batchSize size)) → syncRound link (.ofNodes (xs ++ ys)) size
      (xs.getLast?.map DagNode.hash) = .ok ⟨(ys.take (batchSize size)).map eventOf,
        decide ((ys.take (batchSize size)).length < batchSize size)⟩) ∧
    ∀ batch, syncRound link (.ofNodes (xs ++ ys)) size (xs.getLast?.map DagNode.hash) = .ok batch →
      Arrives (ys.take (batchSize size)) := by
  obtain ⟨answer, hserved, hwf, htype, hpayload, hlength⟩ :=
    link.served_after size hr
  have htyped : ∀ ev ∈ (ys.take (batchSize size)).map eventOf, ev.nodeType ≠ "" := by
    intro ev hev
    obtain ⟨n, hn, rfl⟩ := List.mem_map.1 hev
    exact hr.typed n (List.mem_append_right _ (List.mem_of_mem_take hn))
  have hparse := @parseEventBatchPayload_build _
    (decide ((ys.take (batchSize size)).length < batchSize size)) htyped
  rw [← hpayload] at hparse
  constructor
  · rintro ⟨hallowed, hfits⟩
    have hread : link.served (.ofNodes (xs ++ ys))
        (pullRequest (xs.getLast?.map DagNode.hash) size) = .ok (some answer) := by
      rw [hserved, Link.transmit_of_fits hwf (hlength ▸ hfits)]
    have hnone : ((ys.take (batchSize size)).map eventOf).find?
        (fun ev => ev.contentCanonicalBytes.length > fedEventMaxContentBytes) = none := by
      refine List.find?_eq_none.2 fun ev hev => ?_
      obtain ⟨n, hn, rfl⟩ := List.mem_map.1 hev
      simpa [eventOf] using hallowed n hn
    rw [hnone] at hparse
    exact FederationState.pullEventsFromPeer_of_read link.established rfl (fun _ => rfl) hread htype
      hparse
  · intro batch h
    obtain ⟨resp, hread, -, hbatch⟩ := FederationState.pullEventsFromPeer_ok h
    have hread' : link.transmit answer = .ok (some resp) := hserved ▸ hread
    have hfits : batchFrameSize (ys.take (batchSize size)) ≤ maxFrameBodySize := by
      by_contra hlarge
      rw [Link.transmit_of_large (by omega)] at hread'
      cases hread'
    rw [Link.transmit_of_fits hwf (hlength ▸ hfits)] at hread'
    cases hread'
    refine ⟨fun n hn => ?_, hfits⟩
    rw [hbatch] at hparse
    split at hparse
    · cases hparse
    · rename_i hnone
      simpa [eventOf] using List.find?_eq_none.1 hnone (eventOf n) (List.mem_map_of_mem hn)

theorem nextSince_eq {last : Bool} (hne : ys ≠ [])
    (hh : ∀ n ∈ ys, n.hash = merkleHash blake3 n.parentHashes n.content) :
    nextSince blake3 since ⟨ys.map eventOf, last⟩ = (xs ++ ys).getLast?.map DagNode.hash := by
  obtain ⟨front, n, rfl⟩ := (List.eq_nil_or_concat ys).resolve_left hne
  have hlast := hh n (by simp)
  rw [List.concat_eq_append, nextSince, List.map_append, List.map_singleton,
    List.getLast?_append, List.getLast?_singleton, Option.some_or, ← List.append_assoc,
    List.getLast?_append, List.getLast?_singleton, Option.some_or, Option.map_some, Option.some_or,
    Option.map_some, hlast]
  rfl

/-! ### All rounds -/

/-- The batch after `i` batches. -/
def batchAt (size : UInt64) (ns : List DagNode) (i : Nat) : List DagNode :=
  (ns.drop (i * batchSize size)).take (batchSize size)

theorem batchAt_zero : batchAt size ns 0 = ns.take (batchSize size) := by
  rw [batchAt, Nat.zero_mul, List.drop_zero]

theorem batchAt_succ {i : Nat} :
    batchAt size ns (i + 1) = batchAt size (ns.drop (batchSize size)) i := by
  rw [batchAt, batchAt, List.drop_drop, Nat.succ_mul, Nat.add_comm]

/-- A round that does not bring the last batch leaves the sync at the nodes after it. -/
theorem syncLoop_succ (hr : Recorded blake3 (xs ++ ys)) (hsize : 0 < batchSize size)
    (hfirst : Arrives (ys.take (batchSize size))) (hmore : batchSize size ≤ ys.length)
    (rounds : Nat) :
    syncLoop blake3 link (.ofNodes (xs ++ ys)) size (rounds + 1) (xs.getLast?.map DagNode.hash) =
      (syncLoop blake3 link
        (.ofNodes ((xs ++ ys.take (batchSize size)) ++ ys.drop (batchSize size))) size rounds
        ((xs ++ ys.take (batchSize size)).getLast?.map DagNode.hash)).map fun rest =>
          rest.map ((ys.take (batchSize size)).map eventOf ++ ·) := by
  have hfull : (ys.take (batchSize size)).length = batchSize size := List.length_take_of_le hmore
  have hne : ys.take (batchSize size) ≠ [] := by
    intro hnil
    rw [hnil, List.length_nil] at hfull
    omega
  rw [syncLoop, (syncRound_after link size hr).1 hfirst, List.append_assoc, List.take_append_drop]
  dsimp only
  rw [hfull, decide_eq_false (Nat.lt_irrefl _), if_neg Bool.false_ne_true]
  rw [nextSince_eq hne fun n hn =>
    hr.hashed n (List.mem_append_right _ (List.mem_of_mem_take hn))]

theorem recorded_split (hr : Recorded blake3 (xs ++ ys)) :
    Recorded blake3 ((xs ++ ys.take (batchSize size)) ++ ys.drop (batchSize size)) := by
  rwa [List.append_assoc, List.take_append_drop]

/-- Where all the batches arrive, enough rounds bring the rest of the log. -/
theorem syncLoop_of_arrives (hr : Recorded blake3 (xs ++ ys)) (hsize : 0 < batchSize size)
    (h : ∀ i, Arrives (batchAt size ys i)) {rounds : Nat} (hrounds : ys.length < rounds) :
    syncLoop blake3 link (.ofNodes (xs ++ ys)) size rounds (xs.getLast?.map DagNode.hash) =
      some (.ok (ys.map eventOf)) := by
  induction rounds generalizing xs ys with
  | zero => omega
  | succ rounds ih =>
    have hfirst : Arrives (ys.take (batchSize size)) := batchAt_zero ▸ h 0
    by_cases hlast : ys.length < batchSize size
    · have hall : ys.take (batchSize size) = ys := List.take_of_length_le (Nat.le_of_lt hlast)
      rw [syncLoop, (syncRound_after link size hr).1 hfirst]
      dsimp only
      rw [hall, decide_eq_true hlast, if_pos rfl]
    · rw [syncLoop_succ hr hsize hfirst (by omega),
        ih (recorded_split hr) (fun i => batchAt_succ ▸ h (i + 1))
          (by rw [List.length_drop]; omega)]
      show some (Except.ok (_ ++ _)) = _
      rw [← List.map_append, List.take_append_drop]

/-- A sync that asks for batches of no events goes on asking. -/
theorem syncLoop_zero (hr : Recorded blake3 (xs ++ ys)) (hsize : batchSize size = 0) (rounds : Nat) :
    syncLoop blake3 link (.ofNodes (xs ++ ys)) size rounds (xs.getLast?.map DagNode.hash) ≠
      some (.ok events) := by
  have hround := (syncRound_after link size hr).1
  rw [hsize, List.take_zero] at hround
  induction rounds generalizing events with
  | zero => exact nofun
  | succ rounds ih =>
    rw [syncLoop, hround arrives_nil]
    intro h
    obtain ⟨rest, hrest, hok⟩ := Option.map_eq_some_iff.1 h
    cases rest with
    | error e => cases hok
    | ok rest => exact ih hrest

/-- A sync that ends well has asked for batches, and they have arrived. -/
theorem arrives_of_syncLoop (hr : Recorded blake3 (xs ++ ys)) {rounds : Nat}
    (h : syncLoop blake3 link (.ofNodes (xs ++ ys)) size rounds (xs.getLast?.map DagNode.hash) =
      some (.ok events)) : 0 < batchSize size ∧ ∀ i, Arrives (batchAt size ys i) := by
  have hsize : 0 < batchSize size := by
    by_contra hzero
    exact syncLoop_zero hr (by omega) rounds h
  refine ⟨hsize, ?_⟩
  induction rounds generalizing xs ys events with
  | zero => cases h
  | succ rounds ih =>
    have hfirst : Arrives (ys.take (batchSize size)) := by
      rw [syncLoop] at h
      cases hround : syncRound link (.ofNodes (xs ++ ys)) size (xs.getLast?.map DagNode.hash) with
      | error e =>
        rw [hround] at h
        cases h
      | ok batch => exact (syncRound_after link size hr).2 batch hround
    intro i
    by_cases hlast : ys.length < batchSize size
    · cases i with
      | zero => exact batchAt_zero ▸ hfirst
      | succ i =>
        have hnil : batchAt size ys (i + 1) = [] := by
          rw [batchAt_succ, List.drop_of_length_le (Nat.le_of_lt hlast), batchAt, List.drop_nil,
            List.take_nil]
        exact hnil ▸ arrives_nil
    · rw [syncLoop_succ hr hsize hfirst (by omega)] at h
      obtain ⟨rest, hrest, hok⟩ := Option.map_eq_some_iff.1 h
      cases rest with
      | error e => cases hok
      | ok rest =>
        cases i with
        | zero => exact batchAt_zero ▸ hfirst
        | succ i => exact batchAt_succ ▸ ih (recorded_split hr) hrest i

theorem arrives_of_sync {l : Ledger blake3} {rounds : Nat}
    (h : syncLoop blake3 link l.dag size rounds none = some (.ok events)) :
    0 < batchSize size ∧ ∀ i, Arrives (batchAt size l.nodes i) := by
  have hr : Recorded blake3 ([] ++ l.nodes) := l.recorded
  rw [l.dag_eq] at h
  exact arrives_of_syncLoop hr h

/-- Every node is in one of the batches. -/
theorem mem_batchAt {n : DagNode} (hsize : 0 < batchSize size) (hn : n ∈ ns) :
    ∃ i, n ∈ batchAt size ns i := by
  obtain ⟨k, hk, rfl⟩ := List.mem_iff_getElem.1 hn
  refine ⟨k / batchSize size, List.mem_iff_getElem?.2 ⟨k % batchSize size, ?_⟩⟩
  rw [batchAt, List.getElem?_take_of_lt (Nat.mod_lt _ hsize), List.getElem?_drop,
    Nat.mul_comm, Nat.div_add_mod, List.getElem?_eq_getElem hk]

theorem forall_arrives_iff (hsize : 0 < batchSize size) : (∀ i, Arrives (batchAt size ns i)) ↔
    (∀ n ∈ ns, n.content.length ≤ fedEventMaxContentBytes) ∧
      ∀ i, batchFrameSize (batchAt size ns i) ≤ maxFrameBodySize := by
  constructor
  · refine fun h => ⟨fun n hn => ?_, fun i => (h i).fits⟩
    obtain ⟨i, hi⟩ := mem_batchAt hsize hn
    exact (h i).allowed n hi
  · rintro ⟨hallowed, hfits⟩ i
    exact ⟨fun n hn => hallowed n (List.mem_of_mem_drop (List.mem_of_mem_take hn)), hfits i⟩

end

/-- A sync ends with the events of the log, each once and in their order, exactly where batches of
some events are asked for, the receiver allows every node, and every batch fits into a frame. -/
theorem sync_complete_iff {link : Link} {l : Ledger blake3} {size : UInt64} :
    (∃ rounds, syncLoop blake3 link l.dag size rounds none = some (.ok (l.nodes.map eventOf))) ↔
    0 < size ∧ (∀ n ∈ l.nodes, n.content.length ≤ fedEventMaxContentBytes) ∧
      ∀ i, batchFrameSize (batchAt size l.nodes i) ≤ maxFrameBodySize := by
  rw [← batchSize_pos_iff]
  constructor
  · rintro ⟨rounds, h⟩
    obtain ⟨hsize, harrives⟩ := arrives_of_sync h
    exact ⟨hsize, (forall_arrives_iff hsize).1 harrives⟩
  · rintro ⟨hsize, h⟩
    have hr : Recorded blake3 ([] ++ l.nodes) := l.recorded
    rw [l.dag_eq]
    exact ⟨l.nodes.length + 1,
      syncLoop_of_arrives hr hsize ((forall_arrives_iff hsize).2 h) (Nat.lt_succ_self _)⟩

/-! ### Two logs -/

section

/-- To a peer who has connected. -/
def openLink : Link where
  hmac := noHmac
  key := .replicate 0
  errorText _ := ""
  federation := { FederationState.new false with
    peers := [⟨.established, some (.replicate 1), none, "a:1", 0⟩] }
  peerSubstrateId := .replicate 1
  established := by decide

theorem sync_complete_two :
    (∃ rounds, syncLoop foldHash openLink twoNodes.dag 1 rounds none =
      some (.ok (twoNodes.nodes.map eventOf))) ∧ twoNodes.nodes.length = 2 := by
  refine ⟨sync_complete_iff.2 ⟨by decide, by decide, fun i => ?_⟩, by decide⟩
  rcases i with _ | _ | i
  · decide
  · decide
  · have hnil : batchAt 1 twoNodes.nodes (i + 1 + 1) = [] := by
      rw [batchAt_succ, batchAt_succ, show (twoNodes.nodes.drop (batchSize 1)).drop (batchSize 1) = []
        by decide, batchAt, List.drop_nil, List.take_nil]
    rw [hnil]
    decide

/-! ### Material that does not fit together -/

/-- As much material as the receiver allows, less `k`. -/
def largeMaterial (k : Nat) : Insertion :=
  ⟨[], "raw_material:text", 0, List.replicate (fedEventMaxContentBytes - k) 0⟩

def largeLog : Nat → Ledger lengthHash
  | 0 => .new
  | k + 1 => (largeLog k).push (largeMaterial k)

theorem push_nodes {l : Ledger blake3} {c : Insertion} (ht : c.nodeType ≠ "")
    (hp : c.parentHashes = []) (hh : ∀ n ∈ l.nodes, n.hash ≠ (c.node blake3).hash) :
    (l.push c).nodes = l.nodes ++ [c.node blake3] := by
  rcases Ledger.push_cases l c with ⟨e, href, -⟩ | ⟨n, hn, hhash, -⟩ | ⟨-, hn⟩
  · cases href with
    | emptyNodeType h => exact absurd h ht
    | parentNotFound h _ =>
      rw [hp] at h
      cases h
    | hashCollision hn hhash _ => exact absurd hhash (hh _ hn)
  · exact absurd hhash (hh n hn)
  · exact hn

theorem hash_largeMaterial {k : Nat} : ((largeMaterial k).node lengthHash).hash =
    .replicate (UInt8.ofNat (8 + (fedEventMaxContentBytes - k))) := by
  show lengthHash (u64Be 0 ++ [] ++ List.replicate (fedEventMaxContentBytes - k) 0) = _
  rw [lengthHash, List.append_nil, List.length_append, List.length_replicate]
  rfl

theorem largeLog_nodes {k : Nat} (hk : k ≤ 5) :
    (largeLog k).nodes = (List.range k).map fun i => (largeMaterial i).node lengthHash := by
  induction k with
  | zero => rfl
  | succ k ih =>
    have hdistinct : ∀ k < 5, ∀ i < k,
        (Hash32.replicate (UInt8.ofNat (8 + (fedEventMaxContentBytes - i)))) ≠
          .replicate (UInt8.ofNat (8 + (fedEventMaxContentBytes - k))) := by decide
    rw [largeLog, push_nodes (by decide : "raw_material:text" ≠ "") rfl, ih (by omega),
      List.range_succ, List.map_append, List.map_singleton]
    intro n hn
    rw [ih (by omega)] at hn
    obtain ⟨i, hi, rfl⟩ := List.mem_map.1 hn
    rw [hash_largeMaterial, hash_largeMaterial]
    exact hdistinct k (by omega) i (List.mem_range.1 hi)

theorem contentSize_le (ns : List DagNode) :
    (ns.map fun n => n.content.length).sum ≤ (ns.map eventWireSize).sum := by
  induction ns with
  | nil => exact Nat.le_refl 0
  | cons n ns ih =>
    simp only [List.map_cons, List.sum_cons, eventWireSize, prefixedSize]
    omega

/-- A sync of five such nodes in one batch ends without them, though the receiver allows each. -/
theorem large_batch_not_synced : (largeLog 5).nodes.length = 5 ∧
    (∀ n ∈ (largeLog 5).nodes, n.content.length ≤ fedEventMaxContentBytes) ∧
    ¬ ∃ rounds, syncLoop lengthHash openLink (largeLog 5).dag 5 rounds none =
      some (.ok ((largeLog 5).nodes.map eventOf)) := by
  have hnodes := largeLog_nodes (Nat.le_refl 5)
  have hcontent : ∀ k, ((largeMaterial k).node lengthHash).content.length =
      fedEventMaxContentBytes - k := fun k => List.length_replicate
  refine ⟨by rw [hnodes, List.length_map, List.length_range], fun n hn => ?_, fun h => ?_⟩
  · rw [hnodes] at hn
    obtain ⟨k, -, rfl⟩ := List.mem_map.1 hn
    rw [hcontent]
    exact Nat.sub_le ..
  · obtain ⟨rounds, h⟩ := h
    have hfits := ((arrives_of_sync h).2 0).fits
    have hbatch : batchAt 5 (largeLog 5).nodes 0 = (largeLog 5).nodes := by
      rw [batchAt_zero, hnodes, List.take_of_length_le]
      rw [List.length_map, List.length_range]
      decide
    have hsum := contentSize_le (largeLog 5).nodes
    rw [hbatch, batchFrameSize] at hfits
    have htotal : ((largeLog 5).nodes.map fun n => n.content.length).sum =
        5 * fedEventMaxContentBytes - 10 := by
      have hsizes : (largeLog 5).nodes.map (fun n => n.content.length) =
          (List.range 5).map (fedEventMaxContentBytes - ·) := by
        rw [hnodes, List.map_map]
        exact List.map_congr_left fun k _ => hcontent k
      rw [hsizes]
      decide
    rw [htotal] at hsum
    simp only [maxFrameBodySize, fedEventMaxContentBytes] at hfits hsum
    omega

end

end Myco.Federation
