import Myco.Prune.Rules
import Myco.Substrate.ServerState

/-!
# The plate index

`handle_list_plates` of `substrate/src/dag_query.rs`: the plates that no plate supersedes, those of
the highest value first.
-/

namespace Myco.Substrate

open Myco.Lib Myco.Canonical Myco.Schema Myco.Federation Myco.Prune

variable {env : Env}

structure Plate where
  hash : NodeHash
  label : String
  value : Option UInt64
deriving DecidableEq

def plateValue (content : Bytes) : Option UInt64 :=
  match (decodeMap? content).bind (OrdMap.get "value") with
  | some (.uint v) => some v
  | _ => none

def plateOf (node : DagNode) : Option Plate :=
  (stripPrefix forgedUnderstandingPrefix node.nodeType).map fun label =>
    ⟨node.hash, label, plateValue node.content⟩

def platesOf (nodes : List DagNode) : List Plate := nodes.filterMap plateOf

/-- The hashes that some plate says it supersedes. -/
def supersededHashes (nodes : List DagNode) : List NodeHash := nodes.flatMap supersedes

/-- The live plates by value, plates of one value in the order of the log. -/
def livePlates (nodes : List DagNode) : List Plate :=
  ((platesOf nodes).filter fun p => p.hash ∉ supersededHashes nodes).mergeSort fun a b =>
    b.value.getD 0 ≤ a.value.getD 0

def plateEntry (p : Plate) : Value :=
  mapOf ([("hash", hashValue p.hash), ("label", .string p.label)] ++ entryIf "value" .uint p.value)

def plateIndex (nodes : List DagNode) : List (String × Value) :=
  let live := livePlates nodes
  [("total_plates", .uint (UInt64.ofNat (platesOf nodes).length)),
    ("live_plates", .uint (UInt64.ofNat live.length)), ("plates", .array (live.map plateEntry))]

def handleListPlates (request : Message) : Handler env (Option Message) := do
  let s ← get
  pure (some ⟨"list_plates_response", request.requestId, OrdMap.ofList utf8 (plateIndex s.nodes)⟩)

/-- Nodes that are no plates do not show. -/
theorem plateIndex_append {ns ws : List DagNode}
    (h : ∀ w ∈ ws, ¬ startsWith forgedUnderstandingPrefix w.nodeType) :
    plateIndex (ns ++ ws) = plateIndex ns := by
  have hplates : platesOf (ns ++ ws) = platesOf ns := by
    have hnone : ws.filterMap plateOf = [] := by
      refine List.filterMap_eq_nil_iff.2 fun w hw => ?_
      rw [plateOf, stripPrefix, if_neg (h w hw)]
      rfl
    rw [platesOf, List.filterMap_append, hnone, List.append_nil]
    rfl
  have hsuperseded : supersededHashes (ns ++ ws) = supersededHashes ns := by
    have hnone : ws.flatMap supersedes = [] := by
      refine List.flatMap_eq_nil_iff.2 fun w hw => ?_
      rw [supersedes, if_neg (h w hw)]
    rw [supersededHashes, List.flatMap_append, hnone, List.append_nil]
    rfl
  unfold plateIndex livePlates
  rw [hplates, hsuperseded]

end Myco.Substrate
