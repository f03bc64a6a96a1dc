import Mathlib.Data.Finmap
import Myco.Canonical.Value
import Myco.Lib.Grounded

/-!
# The causal DAG

`Dag` of `kernel/schema/src/dag.rs`: a map from hashes to nodes, the order of insertion and the
tip. BLAKE3 is a parameter; nothing here needs it to be free of collisions.

What a `Dag` is *for* is its history, the list of its nodes in the order in which they came.
`Dag.ofNodes` lays a history out as the code stores it, `Recorded` says which lists are histories,
and `insertNode_cases` is the one lemma about `insertNode`: every call leaves the history alone or
adds one node at its end. `dag_invariant` reads the representation invariant off.
-/

namespace Myco.Schema

open Myco.Lib Myco.Canonical

abbrev NodeHash := Hash32

/-! ### The code -/

/-- The texts of `PersistenceMalformed`, one constructor a message. -/
inductive Malformed where
  /-- `decode: {}` -/
  | decode (e : CanonicalBytesError)
  /-- `DAG root is not a Map: {}` -/
  | rootNotMap (other : Value)
  /-- the text of a `map_get_*` error -/
  | field (e : CanonicalBytesError)
  /-- `DAG node is not a Map: {}` -/
  | nodeNotMap (other : Value)
  /-- `parent_hashes contains non-32-byte entry` -/
  | parentHash

inductive DagError where
  | parentNotFound (hash : NodeHash)
  | hashCollision (hash : NodeHash)
  | unknownPrevTip (hash : NodeHash)
  | nodeNotFound (hash : NodeHash)
  | retroEditDetected (stored recomputed : NodeHash)
  | emptyNodeType
  | persistenceMalformed (what : Malformed)

structure DagNode where
  hash : NodeHash
  parentHashes : List NodeHash
  nodeType : String
  createdAtCycle : UInt64
  content : Bytes
deriving DecidableEq

structure Dag where
  nodes : Finmap (fun _ : NodeHash => DagNode)
  insertionOrder : List NodeHash
  tip : Option NodeHash

def Dag.new : Dag := ⟨∅, [], none⟩

def Dag.get (d : Dag) (hash : NodeHash) : Option DagNode := d.nodes.lookup hash

def Dag.iterInInsertionOrder (d : Dag) : List DagNode := d.insertionOrder.filterMap d.get

/-- The arguments of an `insert_node` call. -/
structure Insertion where
  parentHashes : List NodeHash
  nodeType : String
  createdAtCycle : UInt64
  content : Bytes
deriving DecidableEq

variable (blake3 : Bytes → NodeHash)

def merkleHash (parentHashes : List NodeHash) (content : Bytes) : NodeHash :=
  blake3 (u64Be (UInt64.ofNat parentHashes.length) ++ parentHashes.flatMap Hash32.bytes ++ content)

/-- The node that a call asks for. -/
def Insertion.node (c : Insertion) : DagNode :=
  ⟨merkleHash blake3 c.parentHashes c.content, c.parentHashes, c.nodeType, c.createdAtCycle,
    c.content⟩

def insertNode (d : Dag) (c : Insertion) : Except DagError NodeHash × Dag :=
  if c.nodeType = "" then (.error .emptyNodeType, d)
  else match c.parentHashes.find? (fun ph => ph ∉ d.nodes) with
  | some ph => (.error (.parentNotFound ph), d)
  | none =>
    let hash := merkleHash blake3 c.parentHashes c.content
    match d.get hash with
    | some existing =>
      if existing.parentHashes = c.parentHashes ∧ existing.content = c.content then (.ok hash, d)
      else (.error (.hashCollision hash), d)
    | none =>
      (.ok hash, ⟨d.nodes.insert hash (c.node blake3), d.insertionOrder ++ [hash], some hash⟩)

/-- The hashes added since `prevTip`, or all of them. -/
def Dag.enumerateSince (d : Dag) (prevTip : Option NodeHash) : Except DagError (List NodeHash) :=
  match prevTip with
  | none => .ok d.insertionOrder
  | some tip =>
    match d.insertionOrder.findIdx? (· = tip) with
    | none => .error (.unknownPrevTip tip)
    | some pos => .ok (d.insertionOrder.drop (pos + 1))

def verifyNodeHash (d : Dag) (hash : NodeHash) : Except DagError Unit :=
  match d.get hash with
  | none => .error (.nodeNotFound hash)
  | some node =>
    let recomputed := merkleHash blake3 node.parentHashes node.content
    if recomputed ≠ node.hash then .error (.retroEditDetected node.hash recomputed) else .ok ()

def verifyAll (d : Dag) : Except DagError Unit := d.insertionOrder.forM (verifyNodeHash blake3 d)

/-- The DAG after a sequence of calls, whatever they returned. -/
def insertAll (calls : List Insertion) : Dag :=
  calls.foldl (fun d c => (insertNode blake3 d c).2) Dag.new

/-! ### Histories -/

/-- The history `ns`, stored. -/
def Dag.ofNodes (ns : List DagNode) : Dag where
  nodes := ns.foldl (fun m n => m.insert n.hash n) ∅
  insertionOrder := ns.map DagNode.hash
  tip := (ns.map DagNode.hash).getLast?

/-- The lists of nodes that are histories. -/
structure Recorded (ns : List DagNode) : Prop where
  nodup : (ns.map DagNode.hash).Nodup
  hashed : ∀ n ∈ ns, n.hash = merkleHash blake3 n.parentHashes n.content
  grounded : Grounded DagNode.hash DagNode.parentHashes ns
  typed : ∀ n ∈ ns, n.nodeType ≠ ""

variable {blake3} {ns : List DagNode}

theorem Dag.ofNodes_append_singleton {n : DagNode} :
    Dag.ofNodes (ns ++ [n]) = ⟨(Dag.ofNodes ns).nodes.insert n.hash n,
      (Dag.ofNodes ns).insertionOrder ++ [n.hash], some n.hash⟩ := by
  simp [Dag.ofNodes, List.foldl_append]

theorem Dag.get_ofNodes (hd : (ns.map DagNode.hash).Nodup) {h : NodeHash} :
    (Dag.ofNodes ns).get h = entryOf DagNode.hash ns h := by
  induction ns using List.reverseRecOn with
  | nil => exact Finmap.lookup_empty h
  | append_singleton ns n ih =>
    rw [List.map_append, List.map_singleton] at hd
    obtain ⟨hns, -, hdisj⟩ := List.nodup_append.1 hd
    rw [Dag.get, Dag.ofNodes_append_singleton, entryOf_append, ← ih hns]
    by_cases hn : h = n.hash
    · have hnone : (Dag.ofNodes ns).get h = none := by
        rw [ih hns, entryOf_eq_none, hn]
        exact fun hm => hdisj _ hm _ List.mem_cons_self rfl
      rw [hnone, hn]
      simp [Finmap.lookup_insert, entryOf]
    · rw [Finmap.lookup_insert_of_ne _ hn]
      have hne : ¬ n.hash = h := fun he => hn he.symm
      simp [Dag.get, entryOf, hne]

theorem Dag.mem_ofNodes (hd : (ns.map DagNode.hash).Nodup) {h : NodeHash} :
    h ∈ (Dag.ofNodes ns).nodes ↔ h ∈ ns.map DagNode.hash := by
  rw [← Finmap.lookup_isSome, ← entryOf_isSome]
  exact Bool.eq_iff_iff.1 (congrArg Option.isSome (Dag.get_ofNodes hd))

/-- The nodes come back in order. -/
theorem Dag.iter_ofNodes (hd : (ns.map DagNode.hash).Nodup) :
    (Dag.ofNodes ns).iterInInsertionOrder = ns := by
  have hget : ∀ n ∈ ns, (Dag.ofNodes ns).get n.hash = some n := fun n hn => by
    rw [Dag.get_ofNodes hd, entryOf_eq_some hd]
    exact ⟨hn, rfl⟩
  have horder : (Dag.ofNodes ns).insertionOrder = ns.map DagNode.hash := rfl
  rw [Dag.iterInInsertionOrder, horder, List.filterMap_map]
  exact (List.filterMap_congr hget).trans List.filterMap_some

theorem recorded_nil : Recorded blake3 [] where
  nodup := List.nodup_nil
  hashed _ h := by cases h
  grounded := grounded_nil
  typed _ h := by cases h

theorem Recorded.of_append {ms : List DagNode} (h : Recorded blake3 (ns ++ ms)) :
    Recorded blake3 ns where
  nodup := by
    have := h.nodup
    rw [List.map_append] at this
    exact (List.nodup_append.1 this).1
  hashed n hn := h.hashed n (List.mem_append_left _ hn)
  grounded := h.grounded.of_append
  typed n hn := h.typed n (List.mem_append_left _ hn)

theorem Recorded.parent_mem (h : Recorded blake3 ns) {n : DagNode} (hn : n ∈ ns) {ph : NodeHash}
    (hp : ph ∈ n.parentHashes) : ph ∈ ns.map DagNode.hash := by
  obtain ⟨xs, ys, rfl⟩ := List.append_of_mem hn
  rw [List.map_append]
  exact List.mem_append_left _ (h.grounded xs n ys rfl ph hp)

theorem Recorded.get_eq_some (h : Recorded blake3 ns) {k : NodeHash} {n : DagNode} :
    (Dag.ofNodes ns).get k = some n ↔ n ∈ ns ∧ n.hash = k := by
  rw [Dag.get_ofNodes h.nodup, entryOf_eq_some h.nodup]

theorem recorded_append_node {c : Insertion} :
    Recorded blake3 (ns ++ [c.node blake3]) ↔ Recorded blake3 ns ∧ c.nodeType ≠ "" ∧
      (∀ ph ∈ c.parentHashes, ph ∈ ns.map DagNode.hash) ∧
      (c.node blake3).hash ∉ ns.map DagNode.hash := by
  constructor
  · intro h
    refine ⟨h.of_append, h.typed (c.node blake3) (by simp), (grounded_append_singleton.1 h.grounded).2, ?_⟩
    have := h.nodup
    rw [List.map_append] at this
    exact fun hm => (List.nodup_append.1 this).2.2 _ hm _ List.mem_cons_self rfl
  · rintro ⟨h, ht, hp, hf⟩
    refine ⟨?_, ?_, grounded_append_singleton.2 ⟨h.grounded, hp⟩, ?_⟩
    · rw [List.map_append, List.map_singleton, List.nodup_append]
      refine ⟨h.nodup, List.nodup_singleton _, ?_⟩
      rintro a ha b hb rfl
      cases List.mem_singleton.1 hb
      exact hf ha
    · intro n hn
      rcases List.mem_append.1 hn with hn | hn
      · exact h.hashed n hn
      · cases List.mem_singleton.1 hn
        rfl
    · intro n hn
      rcases List.mem_append.1 hn with hn | hn
      · exact h.typed n hn
      · cases List.mem_singleton.1 hn
        exact ht

/-! ### One call -/

/-- Why a call is refused by a DAG with history `ns`. -/
inductive Refused (blake3 : Bytes → NodeHash) (ns : List DagNode) (c : Insertion) :
    DagError → Prop
  | emptyNodeType : c.nodeType = "" → Refused blake3 ns c .emptyNodeType
  | parentNotFound {ph : NodeHash} : ph ∈ c.parentHashes → ph ∉ ns.map DagNode.hash →
      Refused blake3 ns c (.parentNotFound ph)
  | hashCollision {n : DagNode} : n ∈ ns → n.hash = (c.node blake3).hash →
      ¬ (n.parentHashes = c.parentHashes ∧ n.content = c.content) →
      Refused blake3 ns c (.hashCollision n.hash)

/-- A call is refused, or finds its node already there, or adds its node at the end. -/
theorem insertNode_cases (h : Recorded blake3 ns) (c : Insertion) :
    (∃ e, Refused blake3 ns c e ∧ insertNode blake3 (Dag.ofNodes ns) c = (.error e, .ofNodes ns)) ∨
    (∃ n ∈ ns, n.hash = (c.node blake3).hash ∧ n.parentHashes = c.parentHashes ∧
      n.content = c.content ∧ insertNode blake3 (.ofNodes ns) c = (.ok n.hash, .ofNodes ns)) ∨
    (Recorded blake3 (ns ++ [c.node blake3]) ∧ insertNode blake3 (.ofNodes ns) c =
      (.ok (c.node blake3).hash, .ofNodes (ns ++ [c.node blake3]))) := by
  unfold insertNode
  by_cases ht : c.nodeType = ""
  · exact .inl ⟨_, .emptyNodeType ht, if_pos ht⟩
  rw [if_neg ht]
  cases hp : c.parentHashes.find? (fun ph => ph ∉ (Dag.ofNodes ns).nodes) with
  | some ph =>
    have hph : ph ∉ (Dag.ofNodes ns).nodes := by simpa using List.find?_some hp
    rw [Dag.mem_ofNodes h.nodup] at hph
    exact .inl ⟨_, .parentNotFound (List.mem_of_find?_eq_some hp) hph, rfl⟩
  | none =>
    have hmem : ∀ ph ∈ c.parentHashes, ph ∈ ns.map DagNode.hash := by
      intro ph hph
      have := List.find?_eq_none.1 hp ph hph
      rw [← Dag.mem_ofNodes h.nodup]
      simpa using this
    simp only [Dag.get_ofNodes h.nodup]
    cases hg : entryOf DagNode.hash ns (merkleHash blake3 c.parentHashes c.content) with
    | some n =>
      obtain ⟨hn, hk⟩ := (entryOf_eq_some h.nodup).1 hg
      by_cases heq : n.parentHashes = c.parentHashes ∧ n.content = c.content
      · refine .inr (.inl ⟨n, hn, hk, heq.1, heq.2, ?_⟩)
        simp only [if_pos heq, hk]
      · refine .inl ⟨_, .hashCollision hn hk heq, ?_⟩
        simp only [if_neg heq, hk]
    | none =>
      have hfresh := entryOf_eq_none.1 hg
      refine .inr (.inr ⟨recorded_append_node.2 ⟨h, ht, hmem, hfresh⟩, ?_⟩)
      rw [Dag.ofNodes_append_singleton]
      rfl

/-- A call that is refused, or finds its node already there, changes nothing. -/
theorem insertNode_frame (h : Recorded blake3 ns) {c : Insertion}
    (hc : (∃ e, (insertNode blake3 (.ofNodes ns) c).1 = .error e) ∨
      merkleHash blake3 c.parentHashes c.content ∈ (Dag.ofNodes ns).nodes) :
    (insertNode blake3 (.ofNodes ns) c).2 = .ofNodes ns := by
  rcases insertNode_cases h c with ⟨e, -, he⟩ | ⟨n, -, -, -, -, he⟩ | ⟨hr, he⟩
  · rw [he]
  · rw [he]
  · rw [he] at hc
    rcases hc with ⟨e, hc⟩ | hc
    · cases hc
    · rw [Dag.mem_ofNodes h.nodup] at hc
      exact absurd hc (recorded_append_node.1 hr).2.2.2

/-! ### Sequences of calls -/

/-- Every DAG that is built is a history, stored. -/
theorem insertAll_recorded (blake3 : Bytes → NodeHash) (calls : List Insertion) :
    ∃ ns, Recorded blake3 ns ∧ insertAll blake3 calls = .ofNodes ns := by
  induction calls using List.reverseRecOn with
  | nil => exact ⟨[], recorded_nil, rfl⟩
  | append_singleton calls c ih =>
    obtain ⟨ns, hr, hd⟩ := ih
    have hstep : insertAll blake3 (calls ++ [c]) = (insertNode blake3 (.ofNodes ns) c).2 := by
      rw [← hd, insertAll, insertAll, List.foldl_append, List.foldl_cons, List.foldl_nil]
    rcases insertNode_cases hr c with ⟨e, -, he⟩ | ⟨n, -, -, -, -, he⟩ | ⟨hr', he⟩
    · exact ⟨ns, hr, by rw [hstep, he]⟩
    · exact ⟨ns, hr, by rw [hstep, he]⟩
    · exact ⟨_, hr', by rw [hstep, he]⟩

/-- The representation invariant, in the code's own terms. -/
structure Dag.Inv (blake3 : Bytes → NodeHash) (d : Dag) : Prop where
  nodup : d.insertionOrder.Nodup
  keys : ∀ h, h ∈ d.insertionOrder ↔ h ∈ d.nodes
  hashed : ∀ h n, d.get h = some n →
    n.hash = h ∧ n.hash = merkleHash blake3 n.parentHashes n.content
  earlier : ∀ xs h ys, d.insertionOrder = xs ++ h :: ys → ∀ n, d.get h = some n →
    ∀ ph ∈ n.parentHashes, ph ∈ xs
  acyclic : ∀ h, ¬ Relation.TransGen (fun ph h => ∃ n, d.get h = some n ∧ ph ∈ n.parentHashes) h h
  tip : d.tip = d.insertionOrder.getLast?

theorem Recorded.inv (h : Recorded blake3 ns) : (Dag.ofNodes ns).Inv blake3 where
  nodup := h.nodup
  keys _ := (Dag.mem_ofNodes h.nodup).symm
  hashed k n hn := by
    rw [h.get_eq_some] at hn
    exact ⟨hn.2, h.hashed n hn.1⟩
  earlier xs k ys hxs n hn := by
    rw [h.get_eq_some] at hn
    obtain ⟨hmem, rfl⟩ := hn
    obtain ⟨as, bs, rfl, rfl, hbs⟩ := List.map_eq_append_iff.1 hxs
    obtain ⟨m, cs, rfl, hm, rfl⟩ := List.map_eq_cons_iff.1 hbs
    cases eq_of_key_eq h.nodup (by simp) hmem hm
    exact h.grounded as n cs rfl
  acyclic k hk := by
    refine h.grounded.acyclic h.nodup k (Relation.TransGen.mono ?_ k k hk)
    rintro a b ⟨n, hn, ha⟩
    rw [h.get_eq_some] at hn
    exact ⟨n, hn.1, hn.2, ha⟩
  tip := rfl

/-- A stored history passes the check for retroactive edits. -/
theorem Recorded.verifyAll (h : Recorded blake3 ns) :
    verifyAll blake3 (Dag.ofNodes ns) = .ok () := by
  have hall : ∀ ms : List DagNode, ms ⊆ ns →
      (ms.map DagNode.hash).forM (verifyNodeHash blake3 (Dag.ofNodes ns)) = .ok () := by
    intro ms
    induction ms with
    | nil => exact fun _ => rfl
    | cons n ms ih =>
      intro hsub
      have hn : n ∈ ns := hsub List.mem_cons_self
      have hget : (Dag.ofNodes ns).get n.hash = some n := h.get_eq_some.2 ⟨hn, rfl⟩
      have hone : verifyNodeHash blake3 (Dag.ofNodes ns) n.hash = .ok () := by
        simp only [verifyNodeHash, hget]
        rw [if_neg (not_not.2 (h.hashed n hn).symm)]
      rw [List.map_cons, List.forM, hone]
      exact ih fun m hm => hsub (List.mem_cons_of_mem _ hm)
  exact hall ns (List.Subset.refl ns)

/-- Whatever is inserted in whatever order, the invariant holds, and a further call that is refused
or finds its node already there leaves the DAG as it was. -/
theorem dag_invariant (blake3 : Bytes → NodeHash) (calls : List Insertion) :
    (insertAll blake3 calls).Inv blake3 ∧
    ∀ c, ((∃ e, (insertNode blake3 (insertAll blake3 calls) c).1 = .error e) ∨
        merkleHash blake3 c.parentHashes c.content ∈ (insertAll blake3 calls).nodes) →
      (insertNode blake3 (insertAll blake3 calls) c).2 = insertAll blake3 calls := by
  obtain ⟨ns, hr, hd⟩ := insertAll_recorded blake3 calls
  rw [hd]
  exact ⟨hr.inv, fun c => insertNode_frame hr⟩

/-- A node whose parent is missing, offered to a DAG of one node. -/
theorem dag_invariant_missing_parent :
    (insertNode (fun b => .replicate (UInt8.ofNat b.length))
      (insertAll (fun b => .replicate (UInt8.ofNat b.length)) [⟨[], "genesis", 0, []⟩])
      ⟨[.replicate 7], "delta", 1, []⟩).2 =
    insertAll (fun b => .replicate (UInt8.ofNat b.length)) [⟨[], "genesis", 0, []⟩] :=
  (dag_invariant _ [⟨[], "genesis", 0, []⟩]).2 ⟨[.replicate 7], "delta", 1, []⟩
    (.inl ⟨.parentNotFound (.replicate 7), rfl⟩)

end Myco.Schema
