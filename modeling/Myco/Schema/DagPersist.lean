import Myco.Canonical.MapGet
import Myco.Canonical.Size
import Myco.Schema.Dag

/-!
# The DAG on disk

`to_canonical_bytes` and `from_canonical_bytes` of `kernel/schema/src/dag.rs`. Hashes are not
stored: the loader runs `insertNode` on every stored node in turn, and gets the history back
because each node's parents are stored before it and no node is stored twice.

`dag_persistence`: a DAG that was built by insertions is loaded back as it was, and no two of them
are stored as the same bytes.
-/

namespace Myco.Schema

open Myco.Lib Myco.Canonical

/-! ### The code -/

/-- `DAG_FORMAT_VERSION`. -/
def dagFormatVersion : UInt64 := 1

def nodeValue (n : DagNode) : Value :=
  mapOf [("parent_hashes", .array (n.parentHashes.map fun h => .bytes h.bytes)),
    ("node_type", .string n.nodeType),
    ("created_at_cycle", .uint n.createdAtCycle),
    ("content_canonical_bytes", .bytes n.content)]

def rootValue (nodes : List Value) : Value :=
  mapOf [("format_version", .uint dagFormatVersion), ("nodes", .array nodes)]

/-- `none` is the panic of an `expect`. -/
def Dag.toCanonicalBytes (d : Dag) : Option Bytes := do
  let nodes ← d.insertionOrder.mapM fun hash => (d.get hash).map nodeValue
  (encode (rootValue nodes)).toOption

abbrev Loaded := Except (Fault DagError)

abbrev malformed (what : Malformed) : Fault DagError := .err (.persistenceMalformed what)

/-- `map_err(|e| DagError::PersistenceMalformed(e.to_string()))`. -/
def fieldOf {α : Type} (x : Except CanonicalBytesError α) : Loaded α :=
  x.mapError fun e => malformed (.field e)

def decodeRoot (bytes : Bytes) : Loaded Value :=
  (decode bytes).mapError (.map fun e => .persistenceMalformed (.decode e))

def parentHash : Value → Loaded NodeHash
  | .bytes b => if h : b.length = 32 then .ok ⟨b, h⟩ else .error (malformed .parentHash)
  | _ => .error (malformed .parentHash)

/-- One turn of the loader's loop, up to its call of `insert_node`. -/
def storedNode (nodeValue : Value) : Loaded Insertion := do
  let nodeMap ← match nodeValue with
    | .map m => .ok m
    | other => .error (malformed (.nodeNotMap other))
  let parentsArray ← fieldOf (mapGetArray nodeMap "parent_hashes")
  let parentHashes ← parentsArray.mapM parentHash
  let nodeType ← fieldOf (mapGetString nodeMap "node_type")
  let createdAtCycle ← fieldOf (mapGetUint nodeMap "created_at_cycle")
  let content ← fieldOf (mapGetBytes nodeMap "content_canonical_bytes")
  .ok ⟨parentHashes, nodeType, createdAtCycle, content⟩

/-- The array of stored nodes; `none` when the format version is another one. -/
def storedArray (bytes : Bytes) : Loaded (Option (List Value)) := do
  let map ← match ← decodeRoot bytes with
    | .map m => .ok m
    | other => .error (malformed (.rootNotMap other))
  let version ← fieldOf (mapGetUint map "format_version")
  if version ≠ dagFormatVersion then .ok none
  else do
    let nodes ← fieldOf (mapGetArray map "nodes")
    .ok (some nodes)

variable (blake3 : Bytes → NodeHash)

def loadNode (d : Dag) (nodeValue : Value) : Loaded Dag := do
  let c ← storedNode nodeValue
  match insertNode blake3 d c with
  | (.ok _, d) => .ok d
  | (.error e, _) => .error (.err e)

def fromCanonicalBytes (bytes : Bytes) : Loaded (Option Dag) := do
  match ← storedArray bytes with
  | none => .ok none
  | some nodes => do
    let dag ← nodes.foldlM (loadNode blake3) Dag.new
    .ok (some dag)

/-! ### Reading back one node -/

variable {blake3} {ns : List DagNode}

/-- The call that stores a node. -/
def DagNode.insertion (n : DagNode) : Insertion :=
  ⟨n.parentHashes, n.nodeType, n.createdAtCycle, n.content⟩

theorem Recorded.node_insertion (h : Recorded blake3 ns) {n : DagNode} (hn : n ∈ ns) :
    n.insertion.node blake3 = n := by
  have := h.hashed n hn
  cases n
  simp only [DagNode.insertion, Insertion.node] at this ⊢
  rw [← this]

theorem nodeValue_wf {n : DagNode} : (nodeValue n).WF := by
  refine mapOf_wf ?_
  simp [Value.WF, wfItems_iff]

theorem mapM_parentHash {hs : List NodeHash} :
    (hs.map fun h => Value.bytes h.bytes).mapM parentHash = .ok hs := by
  induction hs with
  | nil => rfl
  | cons h hs ih =>
    have hone : parentHash (.bytes h.bytes) = .ok h := dif_pos h.length_eq
    rw [List.map_cons, List.mapM_cons, hone, ih]
    rfl

theorem storedNode_nodeValue {n : DagNode} : storedNode (nodeValue n) = .ok n.insertion := by
  simp [-List.mapM_map, storedNode, nodeValue, mapOf, mapGetArray, mapGetString, mapGetUint, mapGetBytes, mapGet,
    get_mapOf, OrdMap.get_cons, Value.array?, Value.string?, Value.uint?, Value.bytes?, fieldOf,
    Except.mapError, mapM_parentHash, DagNode.insertion]

theorem rootValue_wf {nodes : List Value} (h : ∀ v ∈ nodes, v.WF) : (rootValue nodes).WF := by
  refine mapOf_wf ?_
  simpa [Value.WF, wfItems_iff] using h

theorem storedArray_encode {nodes : List Value} {bs : Bytes} (hwf : ∀ v ∈ nodes, v.WF)
    (h : encode (rootValue nodes) = .ok bs) (hmem : bs.length ≤ isizeMax) :
    storedArray bs = .ok (some nodes) := by
  simp [storedArray, decodeRoot, decode_of_encode (rootValue_wf hwf) h hmem, rootValue, mapOf,
    mapGetArray, mapGetUint, mapGet, get_mapOf, OrdMap.get_cons, Value.array?, Value.uint?,
    fieldOf, Except.mapError]

/-! ### Reading back a history -/

/-- Inserting the next node of a history. -/
theorem insertNode_next {c : Insertion} (h : Recorded blake3 (ns ++ [c.node blake3])) :
    insertNode blake3 (.ofNodes ns) c =
      (.ok (c.node blake3).hash, .ofNodes (ns ++ [c.node blake3])) := by
  obtain ⟨hr, ht, hp, hf⟩ := recorded_append_node.1 h
  rcases insertNode_cases hr c with ⟨e, hr', -⟩ | ⟨n, hn, hk, -⟩ | ⟨-, he⟩
  · cases hr' with
    | emptyNodeType h0 => exact absurd h0 ht
    | parentNotFound h0 h1 => exact absurd (hp _ h0) h1
    | hashCollision h0 h1 => exact absurd (h1 ▸ List.mem_map_of_mem h0) hf
  · exact absurd (hk ▸ List.mem_map_of_mem hn) hf
  · exact he

theorem load_nodes (h : Recorded blake3 ns) :
    (ns.map nodeValue).foldlM (loadNode blake3) Dag.new = .ok (.ofNodes ns) := by
  induction ns using List.reverseRecOn with
  | nil => rfl
  | append_singleton ns n ih =>
    have hn := h.node_insertion (n := n) (by simp)
    have hstep := insertNode_next (c := n.insertion) (by rw [hn]; exact h)
    rw [hn] at hstep
    simp only [List.map_append, List.map_singleton, List.foldlM_append, ih h.of_append, ok_bind,
      List.foldlM_cons, List.foldlM_nil, loadNode, storedNode_nodeValue, hstep]
    rfl

theorem toCanonicalBytes_ofNodes (h : Recorded blake3 ns) :
    (Dag.ofNodes ns).toCanonicalBytes = (encode (rootValue (ns.map nodeValue))).toOption := by
  have hget : ∀ ms : List DagNode, ms ⊆ ns → (ms.map DagNode.hash).mapM
      (fun hash => ((Dag.ofNodes ns).get hash).map nodeValue) = some (ms.map nodeValue) := by
    intro ms
    induction ms with
    | nil => exact fun _ => rfl
    | cons n ms ih =>
      intro hsub
      have hn : (Dag.ofNodes ns).get n.hash = some n :=
        h.get_eq_some.2 ⟨hsub List.mem_cons_self, rfl⟩
      rw [List.map_cons, List.mapM_cons, hn, ih fun m hm => hsub (List.mem_cons_of_mem _ hm)]
      rfl
  have horder : (Dag.ofNodes ns).insertionOrder = ns.map DagNode.hash := rfl
  rw [Dag.toCanonicalBytes, horder, hget ns (List.Subset.refl ns)]
  rfl

theorem load_stored (h : Recorded blake3 ns) {bs : Bytes}
    (hbs : (Dag.ofNodes ns).toCanonicalBytes = some bs) (hmem : bs.length ≤ isizeMax) :
    fromCanonicalBytes blake3 bs = .ok (some (.ofNodes ns)) := by
  rw [toCanonicalBytes_ofNodes h] at hbs
  have henc := toOption_eq_some.1 hbs
  have hwf : ∀ v ∈ ns.map nodeValue, v.WF := by
    intro v hv
    obtain ⟨n, -, rfl⟩ := List.mem_map.1 hv
    exact nodeValue_wf
  rw [fromCanonicalBytes, storedArray_encode hwf henc hmem, ok_bind]
  simp only [load_nodes h]
  rfl

theorem toCanonicalBytes_total (h : Recorded blake3 ns) :
    ∃ bs, (Dag.ofNodes ns).toCanonicalBytes = some bs := by
  obtain ⟨bs, hbs⟩ := encode_total (rootValue (ns.map nodeValue))
  exact ⟨bs, by rw [toCanonicalBytes_ofNodes h, hbs]; rfl⟩

theorem load_insertAll {calls : List Insertion} {bs : Bytes}
    (h : (insertAll blake3 calls).toCanonicalBytes = some bs) (hmem : bs.length ≤ isizeMax) :
    fromCanonicalBytes blake3 bs = .ok (some (insertAll blake3 calls)) := by
  obtain ⟨ns, hr, hd⟩ := insertAll_recorded blake3 calls
  rw [hd] at h ⊢
  exact load_stored hr h hmem

/-- A DAG that was built by insertions can be stored; unless the bytes exceed memory it is loaded
back as it was, and no DAG with other nodes is stored as the same bytes. -/
theorem dag_persistence (blake3 : Bytes → NodeHash) (calls : List Insertion) :
    ∃ bs, (insertAll blake3 calls).toCanonicalBytes = some bs ∧ (bs.length ≤ isizeMax →
      fromCanonicalBytes blake3 bs = .ok (some (insertAll blake3 calls)) ∧
      ∀ others : List Insertion, (insertAll blake3 others).iterInInsertionOrder ≠
          (insertAll blake3 calls).iterInInsertionOrder →
        (insertAll blake3 others).toCanonicalBytes ≠ some bs) := by
  obtain ⟨ns, hr, hd⟩ := insertAll_recorded blake3 calls
  obtain ⟨bs, hbs⟩ := toCanonicalBytes_total hr
  rw [← hd] at hbs
  refine ⟨bs, hbs, fun hmem => ⟨load_insertAll hbs hmem, fun others hne hsame => ?_⟩⟩
  have hload := load_insertAll hsame hmem
  rw [load_insertAll hbs hmem] at hload
  have heq : insertAll blake3 calls = insertAll blake3 others :=
    Option.some.inj (Except.ok.inj hload)
  exact hne (by rw [heq])

/-- A genesis node and its child, stored and loaded. -/
theorem dag_persistence_two_nodes :
    ∃ bs, (insertAll (fun b => .replicate (UInt8.ofNat b.length)) [⟨[], "genesis", 0, [1]⟩,
        ⟨[.replicate 9], "delta", 3, []⟩]).toCanonicalBytes = some bs ∧
      fromCanonicalBytes (fun b => .replicate (UInt8.ofNat b.length)) bs =
        .ok (some (insertAll (fun b => .replicate (UInt8.ofNat b.length)) [⟨[], "genesis", 0, [1]⟩,
          ⟨[.replicate 9], "delta", 3, []⟩])) := by
  obtain ⟨bs, hbs, h⟩ := dag_persistence (fun b => .replicate (UInt8.ofNat b.length))
    [⟨[], "genesis", 0, [1]⟩, ⟨[.replicate 9], "delta", 3, []⟩]
  have hmem : bs.length ≤ isizeMax := by
    have hall : ∀ b ∈ (insertAll (fun b => .replicate (UInt8.ofNat b.length))
        [⟨[], "genesis", 0, [1]⟩, ⟨[.replicate 9], "delta", 3, []⟩]).toCanonicalBytes,
        b.length ≤ isizeMax := by decide +kernel
    exact hall bs hbs
  exact ⟨bs, hbs, (h hmem).1⟩

end Myco.Schema
