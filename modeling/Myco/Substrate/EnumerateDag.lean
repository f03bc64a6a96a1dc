import Myco.Federation.Handlers
import Myco.Schema.Enumeration
import Myco.Substrate.Laying

/-!
# Enumerating the log

`handle_enumerate_dag_since` of `substrate/src/dag_query.rs`: the operator asks for the nodes that
came after one it knows, or for all of them. A hash that the substrate does not know raises an
alarm; so does one that is listed and cannot be looked up, which never happens
(`handleEnumerateDagSince_known`).
-/

namespace Myco.Substrate

open Myco.Lib Myco.Canonical Myco.Schema Myco.Federation

variable {env : Env}

/-! ### The code -/

/-- The hash that the operator knows; what is no `Bytes` counts as absent. -/
def prevTipArg (payload : List (String × Value)) : Except SubstrateError (Option NodeHash) :=
  match OrdMap.get "prev_tip" payload with
  | some (.bytes b) =>
    if h : b.length = 32 then .ok (some ⟨b, h⟩)
    else .error (.protocol s!"enumerate_dag_since: prev_tip must be 32 bytes; got {b.length}")
  | _ => .ok none

def enumeratedEntries (n : DagNode) : List (String × Value) :=
  [("hash", hashValue n.hash), ("parent_hashes", .array (n.parentHashes.map hashValue)),
    ("node_type", .string n.nodeType), ("at_cycle", .uint n.createdAtCycle),
    ("content_canonical_bytes", .bytes n.content)]

/-- The nodes of the hashes, or the first hash that has none. -/
def lookUpAll (d : Dag) (hashes : List NodeHash) : Except NodeHash (List DagNode) :=
  hashes.mapM fun h => match d.get h with
    | some node => .ok node
    | none => .error h

def emitEnumerationUnclosed (evidence : String) : Handler env PUnit := do
  let _ ← (emitImmuneSporocarp "C6_dag_enumeration_unclosed" "dag_enumeration_unclosed" evidence :
    Handler env NodeHash).attempt
  pure ()

def enumerationEntries (s : ServerState env) (prevTip : Option NodeHash) (nodes : List DagNode) :
    List (String × Value) :=
  entryIf "current_tip" hashValue s.ledger.tip ++ [("total_dag_size", .uint s.nodeCount),
    ("enumerated_count", .uint (UInt64.ofNat nodes.length))] ++
    entryIf "prev_tip" hashValue prevTip ++
    [("nodes", .array (nodes.map fun n => mapOf (enumeratedEntries n)))]

def handleEnumerateDagSince (request : Message) : Handler env (Option Message) := do
  let s ← get
  match prevTipArg request.payload with
  | .error e => throw e
  | .ok prevTip =>
    match s.ledger.dag.enumerateSince prevTip with
    | .error (.unknownPrevTip t) =>
      let evidence := s!"enumerate_dag_since called with unknown prev_tip {
        hexEncode t.bytes} (substrate has no record of this tip; possible desync or forge attempt)"
      emitEnumerationUnclosed evidence
      throw (.protocol s!"enumerate_dag_since: {evidence}")
    | .error e => throw (.protocol s!"enumerate_dag_since failed: {env.dagErrorText e}")
    | .ok hashes =>
      match lookUpAll s.ledger.dag hashes with
      | .error h =>
        let evidence := s!"enumerate_dag_since: enumeration listed hash {
          hexEncode h.bytes} but state.dag.get returned None (DAG internal inconsistency)"
        emitEnumerationUnclosed evidence
        throw (.protocol evidence)
      | .ok nodes =>
        pure (respond "enumerate_dag_since_response" request (enumerationEntries s prevTip nodes))

/-! ### What is enumerated -/

variable {s : ServerState env} {upTo since : List DagNode}

theorem lookUpAll_of_subset {l : Ledger env.blake3} {ns : List DagNode} (h : ns ⊆ l.nodes) :
    lookUpAll l.dag (ns.map DagNode.hash) = .ok ns := by
  induction ns with
  | nil => rfl
  | cons n ns ih =>
    obtain ⟨hn, hns⟩ := List.cons_subset.1 h
    have hget : l.dag.get n.hash = some n := Ledger.get_eq_some.2 ⟨hn, rfl⟩
    have hrest := ih hns
    unfold lookUpAll at hrest ⊢
    rw [List.map_cons, List.mapM_cons, hget, hrest]
    rfl

/-- Of a hash that the substrate knows, what came after it, and nothing else happens. -/
theorem handleEnumerateDagSince_known {request : Message} (hs : s.nodes = upTo ++ since)
    (hreq : prevTipArg request.payload = .ok ((upTo.map DagNode.hash).getLast?)) :
    (handleEnumerateDagSince request : Handler env _).exec s =
      some (.ok (respond "enumerate_dag_since_response" request
        (enumerationEntries s ((upTo.map DagNode.hash).getLast?) since)), s) := by
  have hrec : Recorded env.blake3 (upTo ++ since) := hs ▸ s.ledger.recorded
  have hdag : s.ledger.dag = .ofNodes (upTo ++ since) :=
    s.ledger.dag_eq.trans (congrArg Dag.ofNodes hs)
  have hsince : s.ledger.dag.enumerateSince ((upTo.map DagNode.hash).getLast?) =
      .ok (since.map DagNode.hash) := by
    rw [hdag]
    exact enumerateSince_tip hrec
  have hnodes : lookUpAll s.ledger.dag (since.map DagNode.hash) = .ok since :=
    lookUpAll_of_subset fun n hn => by
      show n ∈ s.nodes
      rw [hs]
      exact List.mem_append_right _ hn
  rw [handleEnumerateDagSince, Prog.exec_get_bind, hreq]
  simp only [hsince, hnodes, Prog.exec_pure]

end Myco.Substrate
