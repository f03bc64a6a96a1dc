import Myco.Operator.Crossing
import Myco.Operator.SubstrateClient
import Myco.Substrate.EnumerateDag
import Myco.Substrate.Presence
import Myco.Trajectory.Queries

/-!
# The operator's audit of the log

`enumerateDagSincePayload` and `parseEnumerateDagSinceResponse` of `protocol/messages/responses.ts`,
`merkleHash` of `canonical/crypto.ts` and `verifyEnumeration` of `substrate_client.ts`: the operator
asks for the nodes of the log, recomputes each hash from the parents and the content, and, of a full
list, looks for every parent before its child.

- `audit_passes`: a substrate that answers as its code does passes, and the operator sees the nodes
  as they are in the log, through both codecs and both ways of the wire.
- `audit_is_whole`: whoever answers, a full list that passes and has the tip of a log in it has all
  of that log in it, with the parents and the contents, unless two of the nodes at hand collide.
-/

namespace Myco.Operator

open Myco.Lib Myco.Canonical Myco.Schema Myco.Substrate Myco.Prune
open Myco.Trajectory (hexEncode_injective)

/-! ### The code -/

/-- The texts of the `BridgeProtocolError`s of `responses.ts`. -/
inductive ReportError where
  /-- `prev_tip must be exactly 32 bytes; got {}` -/
  | prevTipSize (got : Nat)
  /-- `expected enumerate_dag_since_response; got {}` -/
  | messageType (got : Ts.Str)
  /-- `enumerate_dag_since_response missing required typed fields` -/
  | fields
  /-- `enumerated node is not a Map: {}` -/
  | nodeNotMap (v : Ts.Value)
  /-- `enumerated node Map missing required typed fields` -/
  | nodeFields
  /-- `parent_hashes contains non-Bytes: {}` -/
  | parentNotBytes (v : Ts.Value)

def enumerateDagSincePayload (prevTip : Option Bytes) :
    Except ReportError (List (Ts.Str × Ts.Value)) :=
  match prevTip with
  | none => .ok []
  | some prevTip =>
    if prevTip.length ≠ 32 then .error (.prevTipSize prevTip.length)
    else .ok [(Ts.units "prev_tip", .bytes prevTip)]

structure EnumeratedDagNode where
  hash : Bytes
  parentHashes : List Bytes
  nodeType : Ts.Str
  atCycle : Int
  contentCanonicalBytes : Bytes

structure DagEnumerationReport where
  currentTip : Option Bytes
  prevTip : Option Bytes
  totalDagSize : Int
  enumeratedCount : Int
  nodes : List EnumeratedDagNode

def parentBytes : Ts.Value → Except ReportError Bytes
  | .bytes value => .ok value
  | p => .error (.parentNotBytes p)

def parseEnumeratedNode : Ts.Value → Except ReportError EnumeratedDagNode
  | .map m =>
    match Ts.mapGet m "hash", Ts.mapGet m "parent_hashes", Ts.mapGet m "node_type",
      Ts.mapGet m "at_cycle", Ts.mapGet m "content_canonical_bytes" with
    | some (.bytes hash), some (.array parents), some (.string nodeType), some (.uint atCycle),
        some (.bytes content) => do
      let parentHashes ← parents.mapM parentBytes
      .ok ⟨hash, parentHashes, nodeType, atCycle, content⟩
    | _, _, _, _, _ => .error .nodeFields
  | v => .error (.nodeNotMap v)

/-- A field that counts as `null` if it is no `Bytes`. -/
def bytesOrNull (payload : List (Ts.Str × Ts.Value)) (field : String) : Option Bytes :=
  match Ts.mapGet payload field with
  | some (.bytes value) => some value
  | _ => none

def parseEnumerateDagSinceResponse (response : Message) :
    Except ReportError DagEnumerationReport :=
  if response.messageType ≠ Ts.units "enumerate_dag_since_response" then
    .error (.messageType response.messageType)
  else
    match Ts.mapGet response.payload "total_dag_size",
      Ts.mapGet response.payload "enumerated_count", Ts.mapGet response.payload "nodes" with
    | some (.uint totalDagSize), some (.uint enumeratedCount), some (.array nodes) => do
      let nodes ← nodes.mapM parseEnumeratedNode
      .ok ⟨bytesOrNull response.payload "current_tip", bytesOrNull response.payload "prev_tip",
        totalDagSize, enumeratedCount, nodes⟩
    | _, _, _ => .error .fields

/-- `CryptoError`: `NodeHash must be exactly 32 bytes; got {}`. -/
structure CryptoError where
  got : Nat

/-- `new NodeHash(bytes)`. -/
def newNodeHash (bytes : Bytes) : Except CryptoError NodeHash :=
  if h : bytes.length = 32 then .ok ⟨bytes, h⟩ else .error ⟨bytes.length⟩

/-- The first loop of `verifyEnumeration`, from an index on. -/
def hashErrors (blake3 : Bytes → NodeHash) :
    Nat → List EnumeratedDagNode → Except CryptoError (List String)
  | _, [] => .ok []
  | i, node :: nodes => do
    let parents ← node.parentHashes.mapM newNodeHash
    let recomputed := merkleHash blake3 parents node.contentCanonicalBytes
    let errors ← hashErrors blake3 (i + 1) nodes
    .ok (if recomputed.bytes = node.hash then errors
      else s!"node[{i}] hash mismatch: substrate claimed {hexEncode node.hash}, recomputed {
        hexEncode recomputed.bytes}" :: errors)

/-- The second loop, with the hashes seen, in hexadecimal. Sixteen digits are eight bytes. -/
def unseenErrors : Nat → List String → List EnumeratedDagNode → List String
  | _, _, [] => []
  | i, seen, node :: nodes =>
    (node.parentHashes.filter (hexEncode · ∉ seen)).map (fun p => s!"node[{i}] ({
      hexPrefix node.hash 8}…) references unseen parent {hexPrefix p 8}…") ++
    unseenErrors (i + 1) (hexEncode node.hash :: seen) nodes

def verifyEnumeration (blake3 : Bytes → NodeHash) (report : DagEnumerationReport) :
    Except CryptoError (List String) := do
  let errors ← hashErrors blake3 0 report.nodes
  .ok (errors ++ if report.prevTip = none then unseenErrors 0 [] report.nodes else [])

/-! ### What a list is that passes -/

section

variable {blake3 : Bytes → NodeHash} {es : List EnumeratedDagNode} {e : EnumeratedDagNode}

/-- The hash is that of the parents and the content. -/
def AddsUp (blake3 : Bytes → NodeHash) (e : EnumeratedDagNode) : Prop :=
  ∃ ps : List NodeHash, e.parentHashes = ps.map Hash32.bytes ∧
    e.hash = (merkleHash blake3 ps e.contentCanonicalBytes).bytes

abbrev GroundedReport (es : List EnumeratedDagNode) : Prop :=
  Grounded EnumeratedDagNode.hash EnumeratedDagNode.parentHashes es

theorem mapM_map_ok {ε α β γ : Type} {f : β → Except ε γ} {g : α → β} {k : α → γ} {xs : List α}
    (h : ∀ x ∈ xs, f (g x) = .ok (k x)) : (xs.map g).mapM f = .ok (xs.map k) := by
  induction xs with
  | nil => rfl
  | cons x xs ih =>
    obtain ⟨hx, hxs⟩ := List.forall_mem_cons.1 h
    rw [List.map_cons, List.mapM_cons, hx, ih hxs]
    rfl

theorem eq_map_of_mapM_ok {ε α β : Type} {f : β → Except ε α} {g : α → β}
    (h : ∀ b a, f b = .ok a → b = g a) {bs : List β} {as : List α} (hm : bs.mapM f = .ok as) :
    bs = as.map g := by
  induction bs generalizing as with
  | nil =>
    cases hm
    rfl
  | cons b bs ih =>
    rw [List.mapM_cons] at hm
    cases hb : f b with
    | error e =>
      rw [hb] at hm
      cases hm
    | ok a =>
      cases hbs : bs.mapM f with
      | error e =>
        rw [hb, hbs] at hm
        cases hm
      | ok as' =>
        rw [hb, hbs] at hm
        cases hm
        rw [List.map_cons, ← ih hbs, ← h b a hb]

theorem newNodeHash_bytes (h : NodeHash) : newNodeHash h.bytes = .ok h := dif_pos h.length_eq

theorem eq_bytes_of_newNodeHash (b : Bytes) (h : NodeHash) (hb : newNodeHash b = .ok h) :
    b = h.bytes := by
  unfold newNodeHash at hb
  split at hb
  · cases hb
    rfl
  · cases hb

theorem mapM_newNodeHash {ps : List NodeHash} :
    (ps.map Hash32.bytes).mapM newNodeHash = .ok ps := by
  have h : (ps.map Hash32.bytes).mapM newNodeHash = .ok (ps.map id) :=
    mapM_map_ok fun p _ => newNodeHash_bytes p
  rwa [List.map_id] at h

/-- The first loop finds nothing if every hash is that of the parents and the content. -/
theorem hashErrors_eq_nil {i : Nat} :
    hashErrors blake3 i es = .ok [] ↔ ∀ e ∈ es, AddsUp blake3 e := by
  induction es generalizing i with
  | nil => simp [hashErrors]
  | cons e es ih =>
    rw [List.forall_mem_cons, ← @ih (i + 1), hashErrors]
    cases hps : e.parentHashes.mapM newNodeHash with
    | error err =>
      refine iff_of_false (fun h => by cases h) ?_
      rintro ⟨⟨ps, hps', -⟩, -⟩
      rw [hps', mapM_newNodeHash] at hps
      cases hps
    | ok ps =>
      have hbytes := eq_map_of_mapM_ok eq_bytes_of_newNodeHash hps
      have hadds : AddsUp blake3 e ↔
          (merkleHash blake3 ps e.contentCanonicalBytes).bytes = e.hash := by
        constructor
        · rintro ⟨qs, hqs, he⟩
          have hsame : ps = qs := by
            rw [hqs, mapM_newNodeHash] at hps
            exact (Except.ok.inj hps).symm
          rw [hsame, he]
        · exact fun h => ⟨ps, hbytes, h.symm⟩
      cases hrest : hashErrors blake3 (i + 1) es with
      | error err => exact iff_of_false (fun h => by cases h) fun h => by cases h.2
      | ok errors =>
        rw [hadds]
        show (Except.ok _ : Except CryptoError (List String)) = .ok [] ↔ _
        rw [Except.ok.injEq, Except.ok.injEq]
        split
        · rename_i h
          exact ⟨fun he => ⟨h, he⟩, And.right⟩
        · rename_i h
          exact iff_of_false (List.cons_ne_nil _ _) fun h' => h h'.1

/-- The second loop finds nothing if every parent was seen before. -/
theorem unseenErrors_eq_nil {i : Nat} {before : List EnumeratedDagNode} {seen : List String}
    (hseen : ∀ b, hexEncode b ∈ seen ↔ b ∈ before.map EnumeratedDagNode.hash)
    (hbefore : GroundedReport before) :
    unseenErrors i seen es = [] ↔ GroundedReport (before ++ es) := by
  induction es generalizing i before seen with
  | nil => simpa [unseenErrors] using hbefore
  | cons e es ih =>
    have hnow : (e.parentHashes.filter (hexEncode · ∉ seen)) = [] ↔
        ∀ p ∈ e.parentHashes, p ∈ before.map EnumeratedDagNode.hash := by
      simp only [List.filter_eq_nil_iff, decide_eq_true_eq, not_not, hseen]
    have hnext : ∀ b, hexEncode b ∈ hexEncode e.hash :: seen ↔
        b ∈ (before ++ [e]).map EnumeratedDagNode.hash := fun b => by
      rw [List.mem_cons, hseen, hexEncode_injective.eq_iff, List.map_append, List.mem_append,
        or_comm]
      simp
    have hsplit : before ++ e :: es = (before ++ [e]) ++ es := by simp
    rw [unseenErrors, List.append_eq_nil_iff, List.map_eq_nil_iff, hnow, hsplit]
    constructor
    · rintro ⟨h1, h2⟩
      exact (ih hnext (grounded_append_singleton.2 ⟨hbefore, h1⟩)).1 h2
    · intro h
      have he := grounded_append_singleton.1 h.of_append
      exact ⟨he.2, (ih hnext h.of_append).2 h⟩

/-- A report passes if its hashes are right and, if it is full, parents come before children. -/
theorem verifyEnumeration_eq_nil {report : DagEnumerationReport} :
    verifyEnumeration blake3 report = .ok [] ↔ (∀ e ∈ report.nodes, AddsUp blake3 e) ∧
      (report.prevTip = none → GroundedReport report.nodes) := by
  have hunseen : unseenErrors 0 [] report.nodes = [] ↔ GroundedReport report.nodes :=
    unseenErrors_eq_nil (by simp) grounded_nil
  rw [← hashErrors_eq_nil (i := 0), verifyEnumeration]
  cases herrors : hashErrors blake3 0 report.nodes with
  | error err => exact iff_of_false (fun h => by cases h) fun h => by cases h.1
  | ok errors =>
    show (Except.ok _ : Except CryptoError (List String)) = .ok [] ↔ _
    rw [Except.ok.injEq, Except.ok.injEq, List.append_eq_nil_iff, ← hunseen]
    by_cases hnone : report.prevTip = none
    · rw [if_pos hnone]
      simp [hnone]
    · rw [if_neg hnone]
      simp [hnone]

end

/-! ### What a list shows of a log -/

section

variable {blake3 : Bytes → NodeHash} {l : Ledger blake3} {report : DagEnumerationReport}

/-- The node as it is in the log, as far as its hash speaks of it. -/
structure Shows (n : DagNode) (e : EnumeratedDagNode) : Prop where
  hash : e.hash = n.hash.bytes
  parents : e.parentHashes = n.parentHashes.map Hash32.bytes
  content : e.contentCanonicalBytes = n.content

/-- Other parents or another content under the hash of the node. -/
def Collides (blake3 : Bytes → NodeHash) (n : DagNode) (e : EnumeratedDagNode) : Prop :=
  ∃ ps : List NodeHash, e.parentHashes = ps.map Hash32.bytes ∧
    merkleHash blake3 ps e.contentCanonicalBytes = merkleHash blake3 n.parentHashes n.content ∧
    ¬ (ps = n.parentHashes ∧ e.contentCanonicalBytes = n.content)

theorem shows_or_collides {n : DagNode} {e : EnumeratedDagNode} (hn : n ∈ l.nodes)
    (he : AddsUp blake3 e) (hh : e.hash = n.hash.bytes) : Shows n e ∨ Collides blake3 n e := by
  obtain ⟨ps, hps, hash⟩ := he
  have hmerkle : merkleHash blake3 ps e.contentCanonicalBytes =
      merkleHash blake3 n.parentHashes n.content :=
    (Hash32.ext (hash.symm.trans hh)).trans (l.recorded.hashed n hn)
  by_cases hsame : ps = n.parentHashes ∧ e.contentCanonicalBytes = n.content
  · exact .inl ⟨hh, hsame.1 ▸ hps, hsame.2⟩
  · exact .inr ⟨ps, hps, hmerkle, hsame⟩

/-- A list that passes shows what the nodes it shows have for ancestors, or there is a collision. -/
theorem listed_of_reaches (hadds : ∀ e ∈ report.nodes, AddsUp blake3 e)
    (hground : GroundedReport report.nodes)
    (hfree : ∀ n ∈ l.nodes, ∀ e ∈ report.nodes, ¬ Collides blake3 n e) {t h : NodeHash}
    (ht : t.bytes ∈ report.nodes.map EnumeratedDagNode.hash) (hreach : Reaches l.dag t h) :
    h.bytes ∈ report.nodes.map EnumeratedDagNode.hash := by
  induction hreach with
  | refl => exact ht
  | tail _ hedge ih =>
    obtain ⟨n, hn, rfl, hp⟩ := edge_iff.1 hedge
    obtain ⟨e, he, hh⟩ := List.mem_map.1 ih
    have hshows := (shows_or_collides hn (hadds e he) hh).resolve_right (hfree n hn e he)
    obtain ⟨before, after, hsplit⟩ := List.append_of_mem he
    have hbefore := hground before e after hsplit _
      (hshows.parents ▸ List.mem_map_of_mem hp)
    rw [hsplit, List.map_append]
    exact List.mem_append_left _ hbefore

end

/-! ### What the substrate answers -/

section

variable {env : Env} {s : ServerState env} {upTo since : List DagNode} {n : DagNode}
  {prevTip : Option NodeHash}

/-- A node of the log in a report. -/
def nodeReport (n : DagNode) : EnumeratedDagNode :=
  ⟨n.hash.bytes, n.parentHashes.map Hash32.bytes, Ts.units (unmarkText n.nodeType),
    n.createdAtCycle.toNat, n.content⟩

def reportOf (s : ServerState env) (prevTip : Option NodeHash) (since : List DagNode) :
    DagEnumerationReport :=
  ⟨s.ledger.tip.map Hash32.bytes, prevTip.map Hash32.bytes, s.nodeCount.toNat,
    (UInt64.ofNat since.length).toNat, since.map nodeReport⟩

theorem addsUp_nodeReport {l : Ledger env.blake3} (hn : n ∈ l.nodes) :
    AddsUp env.blake3 (nodeReport n) :=
  ⟨n.parentHashes, rfl, congrArg Hash32.bytes (l.recorded.hashed n hn)⟩

theorem groundedReport_nodes {l : Ledger env.blake3} :
    GroundedReport (l.nodes.map nodeReport) := by
  intro xs e ys hsplit p hp
  obtain ⟨ns, rest, hns, rfl, hrest⟩ := List.map_eq_append_iff.1 hsplit
  obtain ⟨n, ms, rfl, rfl, rfl⟩ := List.map_eq_cons_iff.1 hrest
  obtain ⟨k, hk, rfl⟩ := List.mem_map.1 hp
  obtain ⟨m, hm, rfl⟩ := List.mem_map.1 (l.recorded.grounded ns n ms hns k hk)
  rw [List.map_map]
  exact List.mem_map.2 ⟨m, hm, rfl⟩

/-- Since the tip of an earlier log, or since nothing. -/
theorem verifyEnumeration_reportOf (hs : s.nodes = upTo ++ since) :
    verifyEnumeration env.blake3 (reportOf s ((upTo.map DagNode.hash).getLast?) since) =
      .ok [] := by
  refine verifyEnumeration_eq_nil.2 ⟨fun e he => ?_, fun hnone => ?_⟩
  · obtain ⟨n, hn, rfl⟩ := List.mem_map.1 he
    refine addsUp_nodeReport (l := s.ledger) ?_
    show n ∈ s.nodes
    rw [hs]
    exact List.mem_append_right _ hn
  · have hempty : upTo = [] := by
      have := Option.map_eq_none_iff.1 hnone
      rwa [List.getLast?_eq_none_iff, List.map_eq_nil_iff] at this
    rw [hempty, List.nil_append] at hs
    show GroundedReport (since.map nodeReport)
    rw [← hs]
    exact groundedReport_nodes

/-! ### What the operator makes of it -/

theorem named_of_sublist {es : List (String × Value)} {names : List String}
    (h : (es.map Prod.fst).Sublist names) (hd : names.Nodup)
    (hm : ∀ k ∈ names, ¬ startsWith byteOrderMark k) : Named es :=
  ⟨hd.sublist h, fun _ he => hm _ (h.subset (List.mem_map_of_mem he))⟩

theorem named_enumeratedEntries : Named (enumeratedEntries n) :=
  named_of_sublist (List.Sublist.refl ["hash", "parent_hashes", "node_type", "at_cycle",
    "content_canonical_bytes"]) (by decide) (by decide)

theorem parseEnumeratedNode_entries :
    parseEnumeratedNode (tsOf (mapOf (enumeratedEntries n))) = .ok (nodeReport n) := by
  obtain ⟨fs, hfs, hperm⟩ := tsOf_mapOf (named_enumeratedEntries (n := n))
  have hget : ∀ {k : String} {v : Value}, (k, v) ∈ enumeratedEntries n →
      Ts.mapGet fs k = some (tsOf v) := mapGet_field named_enumeratedEntries hperm
  have hparents : (n.parentHashes.map fun p => tsOf (hashValue p)).mapM parentBytes =
      .ok (n.parentHashes.map Hash32.bytes) := mapM_map_ok fun _ _ => rfl
  rw [hfs, parseEnumeratedNode, hget (v := hashValue n.hash) (by simp [enumeratedEntries]),
    hget (v := .array (n.parentHashes.map hashValue)) (by simp [enumeratedEntries]),
    hget (v := .string n.nodeType) (by simp [enumeratedEntries]),
    hget (v := .uint n.createdAtCycle) (by simp [enumeratedEntries]),
    hget (v := .bytes n.content) (by simp [enumeratedEntries]), tsOf_array, List.map_map]
  simp only [tsOf_uint, tsOf_bytes, tsOf_string, hashValue]
  rw [show (tsOf ∘ hashValue) = fun p => tsOf (hashValue p) from rfl, hparents]
  rfl

theorem named_enumerationEntries : Named (enumerationEntries s prevTip since) := by
  have htip : ((entryIf "current_tip" hashValue s.ledger.tip).map Prod.fst).Sublist
      ["current_tip"] := by
    cases s.ledger.tip with
    | none => exact List.nil_sublist _
    | some t => exact List.Sublist.refl _
  have hprev : ((entryIf "prev_tip" hashValue prevTip).map Prod.fst).Sublist ["prev_tip"] := by
    cases prevTip with
    | none => exact List.nil_sublist _
    | some t => exact List.Sublist.refl _
  have hnames : ((enumerationEntries s prevTip since).map Prod.fst).Sublist ["current_tip",
      "total_dag_size", "enumerated_count", "prev_tip", "nodes"] := by
    rw [enumerationEntries, List.map_append, List.map_append, List.map_append]
    exact ((htip.append (List.Sublist.refl ["total_dag_size", "enumerated_count"])).append
      hprev).append (List.Sublist.refl ["nodes"])
  exact named_of_sublist hnames (by decide) (by decide)

theorem wf_enumerationEntries : ∀ e ∈ enumerationEntries s prevTip since, e.2.WF := by
  have hparents : ∀ n : DagNode, WFItems (n.parentHashes.map hashValue) := by
    simp [wfItems_iff, hashValue, Value.WF]
  have hnodes : ∀ n, (mapOf (enumeratedEntries n)).WF := fun n =>
    mapOf_wf (by simp [enumeratedEntries, hashValue, Value.WF, hparents])
  have hall : WFItems (since.map fun n => mapOf (enumeratedEntries n)) := by
    simp [wfItems_iff, hnodes]
  have hif : ∀ {k : String} {x : Option NodeHash}, ∀ e ∈ entryIf k hashValue x, e.2.WF := by
    rintro k (_ | t) e he
    · cases he
    · cases List.mem_singleton.1 he
      trivial
  intro e he
  rw [enumerationEntries] at he
  simp only [List.mem_append, List.mem_cons, List.not_mem_nil, or_false] at he
  rcases he with ((he | rfl | rfl) | he) | rfl
  · exact hif e he
  · trivial
  · trivial
  · exact hif e he
  · exact hall

/-- A hash that may be left out of a message. -/
theorem bytesOrNull_field {es : List (String × Value)} {fs : List (Ts.Str × Ts.Value)}
    {x : Option NodeHash} {field : String} (h : Named es) (hp : fs.Perm (tsFields es))
    (hin : entryIf field hashValue x ⊆ es) (hout : x = none → field ∉ es.map Prod.fst) :
    bytesOrNull fs field = x.map Hash32.bytes := by
  cases x with
  | none => rw [bytesOrNull, mapGet_absent hp (hout rfl)]; rfl
  | some t =>
    rw [bytesOrNull, mapGet_field h hp (v := hashValue t) (hin List.mem_cons_self)]
    rfl

theorem parse_enumerationEntries {fs : List (Ts.Str × Ts.Value)} {requestId : Int}
    (hp : fs.Perm (tsFields (enumerationEntries s prevTip since))) :
    parseEnumerateDagSinceResponse
      { messageType := Ts.units "enumerate_dag_since_response", requestId := requestId,
        payload := fs } = .ok (reportOf s prevTip since) := by
  have hnamed : Named (enumerationEntries s prevTip since) := named_enumerationEntries
  have hget : ∀ {k : String} {v : Value}, (k, v) ∈ enumerationEntries s prevTip since →
      Ts.mapGet fs k = some (tsOf v) := mapGet_field hnamed hp
  have hnodes : (since.map fun n => tsOf (mapOf (enumeratedEntries n))).mapM parseEnumeratedNode =
      .ok (since.map nodeReport) := mapM_map_ok fun _ _ => parseEnumeratedNode_entries
  have htip : bytesOrNull fs "current_tip" = s.ledger.tip.map Hash32.bytes := by
    refine bytesOrNull_field hnamed hp (fun e he => by simp [enumerationEntries, he]) fun hx => ?_
    cases prevTip <;> simp [enumerationEntries, entryIf, hx]
  have hprev : bytesOrNull fs "prev_tip" = prevTip.map Hash32.bytes := by
    refine bytesOrNull_field hnamed hp (fun e he => by simp [enumerationEntries, he]) fun hx => ?_
    cases ht : s.ledger.tip <;> simp [enumerationEntries, entryIf, hx, ht]
  rw [parseEnumerateDagSinceResponse, if_neg (not_not.2 rfl)]
  simp only
  rw [hget (v := .uint s.nodeCount) (by simp [enumerationEntries]),
    hget (v := .uint (UInt64.ofNat since.length)) (by simp [enumerationEntries]),
    hget (v := .array (since.map fun n => mapOf (enumeratedEntries n)))
      (by simp [enumerationEntries]), tsOf_array, List.map_map]
  simp only [tsOf_uint, htip, hprev]
  rw [show (tsOf ∘ fun n => mapOf (enumeratedEntries n)) =
    fun n => tsOf (mapOf (enumeratedEntries n)) from rfl, hnodes]
  rfl

/-! ### What the operator asks -/

variable {hmac : Bridge.Hmac} {key : Hash32} {requestId : UInt64}

def enumerateDagSince (requestId : UInt64) (prevTip : Option NodeHash) : Substrate.Message :=
  messageOf "enumerate_dag_since" requestId (entryIf "prev_tip" hashValue prevTip)

theorem prevTipArg_enumerateDagSince :
    prevTipArg (enumerateDagSince requestId prevTip).payload = .ok prevTip := by
  cases prevTip with
  | none => rfl
  | some t =>
    have hget : OrdMap.get "prev_tip" (enumerateDagSince requestId (some t)).payload =
        some (.bytes t.bytes) := rfl
    rw [prevTipArg, hget]
    exact dif_pos t.length_eq

theorem wf_prevTip : ∀ e ∈ entryIf "prev_tip" hashValue prevTip, e.2.WF := by
  intro e he
  cases prevTip with
  | none => cases he
  | some t =>
    cases List.mem_singleton.1 he
    trivial

theorem enumerateDagSince_length :
    (Bridge.encodeFrameBody hmac key (enumerateDagSince requestId prevTip)).length ≤
      Bridge.maxFrameBodySize := by
  have h1 : keySize "v" = 3 := by decide
  have h2 : keySize "type" = 6 := by decide
  have h3 : keySize "request_id" = 12 := by decide
  have h4 : keySize "payload" = 9 := by decide
  have h5 : prefixedSize (utf8 "enumerate_dag_since").length = 20 := by decide
  have h6 : keySize "prev_tip" = 10 := by decide
  have h7 : prefixedSize 32 = 33 := by decide
  have hpayload :
      (Value.map (enumerateDagSince requestId prevTip).payload).size ≤ 46 := by
    cases prevTip with
    | none =>
      show (mapOf []).size ≤ 46
      decide
    | some t =>
      have hkeys : ([("prev_tip", hashValue t)].map Prod.fst).Nodup := List.nodup_singleton _
      show (mapOf [("prev_tip", hashValue t)]).size ≤ 46
      rw [size_mapOf hkeys]
      simp only [List.length_singleton, List.map_cons, List.map_nil, List.sum_cons, List.sum_nil,
        hashValue, Value.size, t.length_eq, h6, h7, lenVarint_of_lt (show 1 < 128 by decide)]
      omega
  rw [Bridge.encodeFrameBody_length, size_mapOf Bridge.bodyEntries_keys]
  simp only [Bridge.bodyEntries, List.length_cons, List.length_nil, List.map_cons,
    List.map_nil, List.sum_cons, List.sum_nil, h1, h2, h3, h4,
    lenVarint_of_lt (show 0 + 1 + 1 + 1 + 1 < 128 by decide)]
  have htype : (Value.string (enumerateDagSince requestId prevTip).messageType).size = 21 := by
    show 1 + prefixedSize (utf8 "enumerate_dag_since").length = 21
    omega
  rw [htype]
  simp only [Value.size, Bridge.hmacSize, Bridge.maxFrameBodySize] at hpayload ⊢
  omega

/-- What the operator asks is what the substrate is asked. -/
theorem enumerateDagSince_crossing : ∃ js frame,
    enumerateDagSincePayload (prevTip.map Hash32.bytes) = .ok js ∧
    encodeFrameBody hmac key
      { messageType := Ts.units "enumerate_dag_since", requestId := requestId.toNat,
        payload := js } = .ok frame ∧
    Bridge.decodeFrameBody hmac key frame = .ok (enumerateDagSince requestId prevTip) := by
  have hread : Bridge.decodeFrameBody hmac key
      (Bridge.encodeFrameBody hmac key (enumerateDagSince requestId prevTip)) =
        .ok (enumerateDagSince requestId prevTip) :=
    Bridge.decodeFrameBody_encode (mapOf_wf wf_prevTip) enumerateDagSince_length
  have hpayload : ∃ js, enumerateDagSincePayload (prevTip.map Hash32.bytes) = .ok js ∧
      List.Forall₂ (fun e j => j.1 = Ts.units e.1 ∧ Alike e.2 j.2)
        (entryIf "prev_tip" hashValue prevTip) js := by
    cases prevTip with
    | none => exact ⟨[], rfl, .nil⟩
    | some t =>
      exact ⟨_, if_neg (not_not.2 t.length_eq), .cons ⟨rfl, alike_bytes⟩ .nil⟩
  have hkeys : ((entryIf "prev_tip" hashValue prevTip).map Prod.fst).Nodup := by
    cases prevTip with
    | none => exact List.nodup_nil
    | some t => exact List.nodup_singleton _
  obtain ⟨js, hjs, halike⟩ := hpayload
  exact ⟨js, _, hjs, encodeFrameBody_crossing hkeys wf_prevTip enumerateDagSince_length halike,
    hread⟩

end

/-- The operator asks for what came after the first `k` nodes: the substrate reads the question as
it was asked and answers it, nothing else happens, and if the answer fits in a frame, the operator
reads the nodes as they are in the log and finds nothing wrong with them. -/
theorem audit_passes {env : Env} (s : ServerState env) (k : Nat) (hmac : Bridge.Hmac)
    (key : Hash32) (requestId : UInt64) : ∃ js frame request response,
    enumerateDagSincePayload
      ((((s.nodes.take k).map DagNode.hash).getLast?).map Hash32.bytes) = .ok js ∧
    encodeFrameBody hmac key
      { messageType := Ts.units "enumerate_dag_since", requestId := requestId.toNat,
        payload := js } = .ok frame ∧
    Bridge.decodeFrameBody hmac key frame = .ok request ∧
    (handleEnumerateDagSince request : Handler env _).exec s = some (.ok (some response), s) ∧
    ∀ wire, Bridge.writeFrame (Bridge.encodeFrameBody hmac key response) = .ok wire →
      ∃ m report, decodeFrameBody hmac key (Bridge.encodeFrameBody hmac key response) = .ok m ∧
        m.target = requestId.toNat ∧ parseEnumerateDagSinceResponse m = .ok report ∧
        report.nodes = (s.nodes.drop k).map nodeReport ∧
        report.currentTip = s.ledger.tip.map Hash32.bytes ∧
        verifyEnumeration env.blake3 report = .ok [] := by
  have hs : s.nodes = s.nodes.take k ++ s.nodes.drop k := (List.take_append_drop k s.nodes).symm
  generalize hp : ((s.nodes.take k).map DagNode.hash).getLast? = prevTip
  obtain ⟨js, frame, hjs, hframe, hread⟩ :=
    @enumerateDagSince_crossing prevTip hmac key requestId
  have hasked : prevTipArg (enumerateDagSince requestId prevTip).payload =
      .ok (((s.nodes.take k).map DagNode.hash).getLast?) := by
    rw [hp, prevTipArg_enumerateDagSince]
  have hanswer := handleEnumerateDagSince_known hs hasked
  rw [hp] at hanswer
  refine ⟨js, frame, _, _, hjs, hframe, hread, hanswer, fun wire hwire => ?_⟩
  have hsize : (Bridge.encodeFrameBody hmac key (messageOf "enumerate_dag_since_response" requestId
      (enumerationEntries s prevTip (s.nodes.drop k)))).length ≤ Bridge.maxFrameBodySize := by
    rw [Bridge.writeFrame] at hwire
    split at hwire
    · cases hwire
    · rename_i h
      exact Nat.not_lt.1 h
  obtain ⟨fs, hfs, hdecode⟩ := decodeFrameBody_crossing (by decide) named_enumerationEntries
    wf_enumerationEntries hsize
  refine ⟨_, _, hdecode, ?_, parse_enumerationEntries hfs, rfl, rfl, ?_⟩
  · have hne : Ts.units "enumerate_dag_since_response" ≠ Ts.units "error" :=
      Ts.units_injective.ne (by decide)
    rw [Message.target, Message.isError, if_neg (by simpa using hne)]
  · rw [← hp]
    exact verifyEnumeration_reportOf hs

/-- In a life that began with an empty log: a full list that passes and has the tip in it shows
every node of the log, or holds a collision with one of them. Nobody can leave out a node or change
its parents or its content; the type and the cycle of a node are not part of its hash. -/
theorem audit_is_whole {env : Env} {rt : Tropism.Runtime} {s s' : ServerState env}
    (hs : s.nodes = []) (hlife : Life rt s s') {t : NodeHash} (htip : s'.ledger.tip = some t)
    {report : DagEnumerationReport} (hfull : report.prevTip = none)
    (hpass : verifyEnumeration env.blake3 report = .ok [])
    (ht : t.bytes ∈ report.nodes.map EnumeratedDagNode.hash) :
    (∀ n ∈ s'.nodes, ∃ e ∈ report.nodes, Shows n e) ∨
      ∃ n ∈ s'.nodes, ∃ e ∈ report.nodes, Collides env.blake3 n e := by
  have hgrown : Grows Linked [] s'.nodes := hs ▸ hlife.climbs
  obtain ⟨hadds, hground⟩ := verifyEnumeration_eq_nil.1 hpass
  by_cases hfree : ∃ n ∈ s'.nodes, ∃ e ∈ report.nodes, Collides env.blake3 n e
  · exact .inr hfree
  · refine .inl fun n hn => ?_
    have hnone : ∀ n ∈ s'.ledger.nodes, ∀ e ∈ report.nodes, ¬ Collides env.blake3 n e :=
      fun n hn e he h => hfree ⟨n, hn, e, he, h⟩
    obtain ⟨t', ht', hreach⟩ := present_of_linked hgrown n hn
    obtain rfl : t' = t := Option.some.inj (ht'.symm.trans htip)
    obtain ⟨e, he, hh⟩ := List.mem_map.1
      (listed_of_reaches hadds (hground hfull) hnone ht hreach)
    exact ⟨e, he, (shows_or_collides hn (hadds e he) hh).resolve_right (hnone n hn e he)⟩

/-- The list of a log with an event and a child of it. -/
theorem audit_is_whole_child : ∃ (s : ServerState smallEnv) (report : DagEnumerationReport),
    s.nodes.length = 2 ∧ (∃ m ∈ s.nodes, ∃ n ∈ s.nodes, n.parentHashes = [m.hash]) ∧
    ((∀ n ∈ s.nodes, ∃ e ∈ report.nodes, Shows n e) ∨
      ∃ n ∈ s.nodes, ∃ e ∈ report.nodes, Collides smallEnv.blake3 n e) := by
  obtain ⟨r, s, he, r', s', he', m, n, hnodes, hparent, htip⟩ : ∃ r s,
      (emitSubstrateEvent "federation_listener_opened" [1] : Handler smallEnv NodeHash).exec
        (stateOf smallEnv []) = some (r, s) ∧ ∃ r' s',
      (emitSubstrateEvent "federation_listener_closed" [2, 3] : Handler smallEnv NodeHash).exec s =
        some (r', s') ∧ ∃ m n, s'.nodes = [m, n] ∧ n.parentHashes = [m.hash] ∧
      s'.ledger.tip = some n.hash := ⟨_, _, rfl, _, _, rfl, _, _, rfl, rfl, rfl⟩
  have hm : m ∈ s'.nodes := hnodes ▸ List.mem_cons_self
  have hn : n ∈ s'.nodes := hnodes ▸ List.mem_cons_of_mem _ List.mem_cons_self
  refine ⟨s', reportOf s' none s'.nodes, by rw [hnodes]; rfl, ⟨m, hm, n, hn, hparent⟩, ?_⟩
  have hpass : verifyEnumeration smallEnv.blake3 (reportOf s' none s'.nodes) = .ok [] :=
    @verifyEnumeration_reportOf _ s' [] s'.nodes rfl
  have hin : n.hash.bytes ∈ (reportOf s' none s'.nodes).nodes.map EnumeratedDagNode.hash :=
    List.mem_map.2 ⟨nodeReport n, List.mem_map_of_mem hn, rfl⟩
  have hlife : Life Tropism.wholeNumbers (stateOf smallEnv []) s' :=
    .tail (.single (.event he)) (.event he')
  exact audit_is_whole rfl hlife htip rfl hpass hin

end Myco.Operator
