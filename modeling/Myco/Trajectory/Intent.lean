import Myco.Lib.Worklist
import Myco.Tropism.Worker

/-!
# Intent

`kernel/trajectory` and the `compute_intent` handler of the worker: the DAG that is read from the
request, the nodes around the pivot, their ancestors and descendants, and the connected components
of these.

A Python `set` is a list without duplicates, and the order in which it is iterated over a
parameter (`SetOrder`). The `while` loops are `walkFrom` and `flood`, which have fuel; where it does
not last there is no answer. A node's id is its hash in hexadecimal.
-/

namespace Myco.Trajectory

open Myco.Lib Myco.Canonical
open Myco.Substrate (hexEncode hexDigit)
open Myco.Tropism (PyError Payload item expect expectBytes expectUint expectArray expectString)

/-- What the handler raises. -/
inductive IntentError where
  | python (e : PyError)
  /-- a `TrajectoryError` -/
  | trajectory (text : String)
  /-- the `ValueError` of `bytes.fromhex` -/
  | fromHex (arg : String)

/-- The order in which sets are iterated over. -/
structure SetOrder where
  order : List String → List String
  perm : ∀ s, (order s).Perm s

/-- `sorted(ids)`: the UTF-8 of strings is in the order of their code points. -/
def sortedIds (ids : List String) : List String := ids.insertionSort fun a b => utf8 a ≤ utf8 b

/-! ### The DAG -/

structure DagNode where
  nodeId : String
  parentIds : List String
  atCycle : Int
  nodeType : String

structure InMemoryDagSource where
  nodes : List (String × DagNode)
  insertionOrder : List String

namespace InMemoryDagSource

def new : InMemoryDagSource := ⟨[], []⟩

variable (dag : InMemoryDagSource)

def get (nodeId : String) : Option DagNode := OrdMap.get nodeId dag.nodes

def add (node : DagNode) : Except IntentError InMemoryDagSource :=
  if (dag.get node.nodeId).isSome then
    .error (.trajectory s!"duplicate node_id: {node.nodeId}")
  else
    match node.parentIds.find? fun p => (dag.get p).isNone with
    | some p => .error (.trajectory s!"parent {p} not in DAG")
    | none =>
      .ok ⟨OrdMap.insert utf8 node.nodeId node dag.nodes, dag.insertionOrder ++ [node.nodeId]⟩

/-- The parents of a node, and none of one that is not there. -/
def parentsOf (nodeId : String) : List String :=
  match dag.get nodeId with
  | none => []
  | some node => node.parentIds

end InMemoryDagSource

/-! ### Queries -/

structure TrajectoryResult where
  nodeIds : List String
  coldStart : Bool

variable (order : SetOrder) (dag : InMemoryDagSource) (fuel : Nat)

def neighborhood (pivotNodeId : String) (radiusCycles : Int) : TrajectoryResult :=
  if dag.nodes.length = 0 then ⟨[], true⟩
  else
    match dag.get pivotNodeId with
    | none => ⟨[], true⟩
    | some pivot =>
      ⟨dag.insertionOrder.filter fun nid =>
        match dag.get nid with
        | none => false
        | some node => decide (((node.atCycle - pivot.atCycle).natAbs : Int) ≤ radiusCycles), false⟩

def causalAncestors (nodeId : String) : Option (List String) :=
  if (dag.get nodeId).isNone then some [] else walkFrom dag.parentsOf fuel nodeId

/-- `children_of.setdefault(parent, []).append(nid)` -/
def addChild (nid : String) (childrenOf : List (String × List String)) (parent : String) :
    List (String × List String) :=
  OrdMap.insert utf8 parent ((OrdMap.get parent childrenOf).getD [] ++ [nid]) childrenOf

/-- The child-index. -/
def childrenOf : List (String × List String) :=
  dag.insertionOrder.foldl (fun index nid => (dag.parentsOf nid).foldl (addChild nid) index) []

def causalDescendants (nodeId : String) : Option (List String) :=
  if (dag.get nodeId).isNone then some []
  else walkFrom (fun current => (OrdMap.get current (childrenOf dag)).getD []) fuel nodeId

/-- `result |= other` -/
def setUpdate (result other : List String) : List String :=
  (order.order other).foldl (fun s x => s.insert x) result

def causalAncestorsAndDescendants (nodeIds : List String) : Option (List String) :=
  nodeIds.foldlM (fun result nid => do
    let ancestors ← causalAncestors dag fuel nid
    let descendants ← causalDescendants dag fuel nid
    return setUpdate order (setUpdate order (result.insert nid) ancestors) descendants) []

/-! ### Clusters -/

structure Cluster where
  clusterId : Nat
  nodeIds : List String

/-- `adj[a].add(b)` -/
def addNeighbor (a b : String) (adj : List (String × List String)) : List (String × List String) :=
  OrdMap.insert utf8 a (((OrdMap.get a adj).getD []).insert b) adj

/-- The edges to the parents of a node, as far as these are in the set. -/
def linkParents (adj : List (String × List String)) (nid : String) :
    List (String × List String) :=
  (dag.parentsOf nid).foldl (fun adj parent =>
    if (OrdMap.get parent adj).isSome then addNeighbor parent nid (addNeighbor nid parent adj)
    else adj) adj

/-- Undirected adjacency restricted to the input set. -/
def adjacency (nodeIds : List String) : List (String × List String) :=
  (order.order nodeIds).foldl (linkParents dag)
    ((order.order nodeIds).foldl (fun adj nid => OrdMap.insert utf8 nid [] adj) [])

/-- The loop over the starts. -/
def clusterFrom (adj : String → List String) (fuel : Nat) :
    List String → List String → Nat → Option (List Cluster)
  | [], _, _ => some []
  | start :: starts, visited, clusterId =>
    if start ∈ visited then clusterFrom adj fuel starts visited clusterId
    else do
      let w ← flood adj fuel visited start
      let clusters ← clusterFrom adj fuel starts w.visited (clusterId + 1)
      return ⟨clusterId, w.component⟩ :: clusters

def clusterConnectedComponents (nodeIds : List String) : Option (List Cluster) :=
  clusterFrom (fun current =>
      order.order ((OrdMap.get current (adjacency order dag nodeIds)).getD [])) fuel
    (sortedIds (order.order nodeIds)) [] 0

/-! ### The handler -/

def expectMap := expect "expect_map: not a Map" Value.map?

/-- What a `try` makes of the exceptions that it catches, which are all that is raised in it. -/
def reading {α : Type} (what : String) (x : Except PyError α) : Except IntentError α :=
  x.mapError fun e => .python (.bridgeProtocol s!"compute_intent {what} error: {e.text}")

def readIntent (payload : Payload) : Except PyError (Bytes × UInt64 × List Value) := do
  let pivotHashBytes ← item payload "pivot_hash" >>= expectBytes
  let radiusCycles ← item payload "radius_cycles" >>= expectUint
  let dagNodesArray ← item payload "dag_nodes" >>= expectArray
  return (pivotHashBytes, radiusCycles, dagNodesArray)

def readDagNode (nodeFields : Payload) : Except PyError DagNode := do
  let nodeHash ← item nodeFields "hash" >>= expectBytes
  let parentsArr ← item nodeFields "parent_hashes" >>= expectArray
  let parents ← parentsArr.mapM expectBytes
  let atCycle ← item nodeFields "at_cycle" >>= expectUint
  let nodeType ← item nodeFields "node_type" >>= expectString
  return ⟨hexEncode nodeHash, parents.map hexEncode, atCycle.toNat, nodeType⟩

/-- Reads a node and adds it. -/
def addNode (dag : InMemoryDagSource) (nodeValue : Value) :
    Except IntentError InMemoryDagSource := do
  let nodeMap ← (expectMap nodeValue).mapError .python
  let node ← reading "dag_node decode" (readDagNode nodeMap)
  dag.add node

def isAsciiSpace (c : Char) : Bool :=
  c = ' ' || c = '\t' || c = '\n' || c = '\r' || c.toNat = 11 || c.toNat = 12

def hexValue (c : Char) : Option Nat :=
  if '0' ≤ c ∧ c ≤ '9' then some (c.toNat - 48)
  else if 'a' ≤ c ∧ c ≤ 'f' then some (c.toNat - 87)
  else if 'A' ≤ c ∧ c ≤ 'F' then some (c.toNat - 55)
  else none

/-- `bytes.fromhex`, which skips blanks between bytes. -/
def fromHex : List Char → Option Bytes
  | [] => some []
  | c :: cs =>
    if isAsciiSpace c then fromHex cs
    else
      match cs with
      | [] => none
      | d :: cs => do
        let hi ← hexValue c
        let lo ← hexValue d
        let rest ← fromHex cs
        return UInt8.ofNat (16 * hi + lo) :: rest

def hashOfId (nid : String) : Except IntentError Bytes :=
  match fromHex nid.toList with
  | some b => .ok b
  | none => .error (.fromHex nid)

structure ClusterReport where
  clusterId : Nat
  nodeCount : Nat
  nodeHashes : List Bytes

def Cluster.report (c : Cluster) : Except IntentError ClusterReport := do
  let nodeHashes ← (sortedIds (order.order c.nodeIds)).mapM hashOfId
  return ⟨c.clusterId, c.nodeIds.length, nodeHashes⟩

structure IntentResponse where
  coldStart : Bool
  neighborhoodNodeCount : Nat
  fullSetNodeCount : Nat
  clusterCount : Nat
  clusters : List ClusterReport

/-- What is computed once the request has been read. -/
def computeIntent (pivotId : String) (radiusCycles : Int) :
    Option (Except IntentError IntentResponse) := do
  let nbr := neighborhood dag pivotId radiusCycles
  let fullSet ← causalAncestorsAndDescendants order dag fuel nbr.nodeIds
  let clusters ← clusterConnectedComponents order dag fuel fullSet
  return do
    let reports ← clusters.mapM (Cluster.report order)
    return ⟨nbr.coldStart, nbr.nodeIds.length, fullSet.length, clusters.length, reports⟩

/-- `_handle_compute_intent`: no answer when the fuel is gone. -/
def handleComputeIntent (payload : Payload) : Option (Except IntentError IntentResponse) :=
  match reading "payload" (readIntent payload) with
  | .error e => some (.error e)
  | .ok (pivotHashBytes, radiusCycles, dagNodesArray) =>
    match dagNodesArray.foldlM addNode .new with
    | .error e => some (.error e)
    | .ok dag => computeIntent order dag fuel (hexEncode pivotHashBytes) radiusCycles.toNat

end Myco.Trajectory
