import Myco.Trajectory.Intent

/-!
# The DAG of a request, and its queries

A request carries a list of nodes, each after its parents. The handler rebuilds their DAG
(`foldlM_addNode`), whose ids are the hashes in hexadecimal. With enough fuel the queries find in it
the nodes near the pivot, their ancestors and their descendants (`fullSet_ends`).
-/

namespace Myco.Trajectory

open Myco.Lib Myco.Canonical
open Myco.Substrate (hexEncode hexDigit)
open Myco.Tropism (PyError Payload item expect expectBytes expectUint expectArray expectString)

/-! ### Hexadecimal -/

theorem toList_hexEncode_cons {b : UInt8} {bs : Bytes} : (hexEncode (b :: bs)).toList =
    hexDigit (b.toNat / 16) :: hexDigit (b.toNat % 16) :: (hexEncode bs).toList := by
  unfold hexEncode
  rw [String.toList_ofList, String.toList_ofList, List.flatMap_cons]
  rfl

theorem hexValue_hexDigit : ∀ n < 16, hexValue (hexDigit n) = some n ∧
    isAsciiSpace (hexDigit n) = false := by
  decide

theorem fromHex_hexEncode {bs : Bytes} : fromHex (hexEncode bs).toList = some bs := by
  induction bs with
  | nil => rfl
  | cons b bs ih =>
    have hb := b.toNat_lt
    obtain ⟨hhi, hspace⟩ := hexValue_hexDigit (b.toNat / 16) (by omega)
    obtain ⟨hlo, -⟩ := hexValue_hexDigit (b.toNat % 16) (by omega)
    rw [toList_hexEncode_cons, fromHex, hspace, hhi, hlo, ih]
    show some (UInt8.ofNat (16 * (b.toNat / 16) + b.toNat % 16) :: bs) = _
    rw [Nat.div_add_mod, UInt8.ofNat_toNat]

theorem hexEncode_injective : Function.Injective hexEncode := by
  intro a b h
  have := congrArg (fun s => fromHex s.toList) h
  simpa [fromHex_hexEncode] using this

/-- A digit in UTF-8. -/
def hexByte (n : Nat) : UInt8 := if n < 10 then UInt8.ofNat (48 + n) else UInt8.ofNat (87 + n)

theorem utf8_hexEncode_singleton : ∀ n < 256, utf8 (hexEncode [UInt8.ofNat n]) =
    [hexByte (n / 16), hexByte (n % 16)] := by
  decide +kernel

theorem hexEncode_cons {b : UInt8} {bs : Bytes} :
    hexEncode (b :: bs) = hexEncode [b] ++ hexEncode bs := by
  apply String.toList_injective
  rw [String.toList_append, toList_hexEncode_cons, toList_hexEncode_cons]
  rfl

theorem utf8_hexEncode_cons {b : UInt8} {bs : Bytes} : utf8 (hexEncode (b :: bs)) =
    hexByte (b.toNat / 16) :: hexByte (b.toNat % 16) :: utf8 (hexEncode bs) := by
  have h := utf8_hexEncode_singleton b.toNat b.toNat_lt
  rw [UInt8.ofNat_toNat] at h
  rw [hexEncode_cons, utf8_append, h]
  rfl

theorem hexByte_lt : ∀ m < 16, ∀ n < 16, (hexByte m < hexByte n ↔ m < n) ∧
    (hexByte m = hexByte n ↔ m = n) := by
  decide

/-- Hexadecimal keeps the order. -/
theorem hexEncode_lt {a b : Bytes} : utf8 (hexEncode a) < utf8 (hexEncode b) ↔ a < b := by
  induction a generalizing b with
  | nil =>
    cases b with
    | nil => simp
    | cons y ys =>
      rw [utf8_hexEncode_cons]
      exact iff_of_true (List.nil_lt_cons ..) (List.nil_lt_cons ..)
  | cons x xs ih =>
    cases b with
    | nil => exact iff_of_false (List.not_lt_nil _) (List.not_lt_nil _)
    | cons y ys =>
      have hx := x.toNat_lt
      have hy := y.toNat_lt
      have hhi := hexByte_lt (x.toNat / 16) (by omega) (y.toNat / 16) (by omega)
      have hlo := hexByte_lt (x.toNat % 16) (by omega) (y.toNat % 16) (by omega)
      rw [utf8_hexEncode_cons, utf8_hexEncode_cons, List.cons_lt_cons_iff, List.cons_lt_cons_iff,
        List.cons_lt_cons_iff, ih, hhi.1, hhi.2, hlo.1, hlo.2, UInt8.lt_iff_toNat_lt,
        ← UInt8.toNat_inj]
      by_cases hrest : xs < ys
      · simp only [hrest, and_true]
        omega
      · simp only [hrest, and_false, or_false]
        omega

/-! ### The request -/

/-- A node as it is sent. -/
structure IntentNode where
  hash : Bytes
  parentHashes : List Bytes
  atCycle : UInt64
  nodeType : String

/-- A node as it is kept. -/
def IntentNode.node (n : IntentNode) : DagNode :=
  ⟨hexEncode n.hash, n.parentHashes.map hexEncode, n.atCycle.toNat, n.nodeType⟩

/-- The hashes are distinct, and parents come before their children. -/
structure InOrder (ns : List IntentNode) : Prop where
  distinct : (ns.map IntentNode.hash).Nodup
  earlier : ∀ pre n post, ns = pre ++ n :: post → n.parentHashes ⊆ pre.map IntentNode.hash

/-- The value that stands for a node. -/
def StandsFor (v : Value) (n : IntentNode) : Prop :=
  ∃ fields, v = .map fields ∧ OrdMap.get "hash" fields = some (.bytes n.hash) ∧
    OrdMap.get "parent_hashes" fields = some (.array (n.parentHashes.map .bytes)) ∧
    OrdMap.get "at_cycle" fields = some (.uint n.atCycle) ∧
    OrdMap.get "node_type" fields = some (.string n.nodeType)

/-- What the request carries, whatever else is in it. -/
structure Carries (payload : Payload) (pivot : Bytes) (radius : UInt64) (ns : List IntentNode) :
    Prop where
  pivotHash : OrdMap.get "pivot_hash" payload = some (.bytes pivot)
  radiusCycles : OrdMap.get "radius_cycles" payload = some (.uint radius)
  dagNodes : ∃ vs, OrdMap.get "dag_nodes" payload = some (.array vs) ∧ List.Forall₂ StandsFor vs ns

/-- The DAG of the nodes. -/
def dagOf (ns : List IntentNode) : InMemoryDagSource where
  nodes := OrdMap.ofList utf8 (ns.map fun n => (hexEncode n.hash, n.node))
  insertionOrder := ns.map fun n => hexEncode n.hash

variable {ns : List IntentNode} {id : String}

theorem get_dagOf (hd : (ns.map IntentNode.hash).Nodup) {d : DagNode} :
    (dagOf ns).get id = some d ↔ ∃ n ∈ ns, hexEncode n.hash = id ∧ n.node = d := by
  unfold InMemoryDagSource.get dagOf
  rw [OrdMap.get_ofList utf8_injective]
  have hnodup : ((ns.map fun n => (hexEncode n.hash, n.node)).reverse.map Prod.fst).Nodup := by
    rw [List.map_reverse, List.nodup_reverse, List.map_map]
    show (ns.map (hexEncode ∘ IntentNode.hash)).Nodup
    rw [← List.map_map]
    exact hd.map hexEncode_injective
  constructor
  · intro h
    have := OrdMap.mem_of_get h
    rw [List.mem_reverse, List.mem_map] at this
    obtain ⟨n, hn, heq⟩ := this
    cases heq
    exact ⟨n, hn, rfl, rfl⟩
  · rintro ⟨n, hn, rfl, rfl⟩
    exact @OrdMap.get_of_mem_of_nodup _ _ _ _ hnodup (hexEncode n.hash, n.node)
      (List.mem_reverse.2 (List.mem_map.2 ⟨n, hn, rfl⟩))

theorem isSome_get_dagOf (hd : (ns.map IntentNode.hash).Nodup) :
    ((dagOf ns).get id).isSome = true ↔ ∃ n ∈ ns, hexEncode n.hash = id := by
  rw [Option.isSome_iff_exists]
  constructor
  · rintro ⟨d, h⟩
    obtain ⟨n, hn, hid, -⟩ := (get_dagOf hd).1 h
    exact ⟨n, hn, hid⟩
  · rintro ⟨n, hn, hid⟩
    exact ⟨n.node, (get_dagOf hd).2 ⟨n, hn, hid, rfl⟩⟩

theorem mem_parentsOf (hd : (ns.map IntentNode.hash).Nodup) {p : String} :
    p ∈ (dagOf ns).parentsOf id ↔
      ∃ n ∈ ns, hexEncode n.hash = id ∧ ∃ ph ∈ n.parentHashes, hexEncode ph = p := by
  unfold InMemoryDagSource.parentsOf
  constructor
  · cases h : (dagOf ns).get id with
    | none => exact fun hp => by cases hp
    | some d =>
      obtain ⟨n, hn, hid, rfl⟩ := (get_dagOf hd).1 h
      exact fun hp => ⟨n, hn, hid, List.mem_map.1 hp⟩
  · rintro ⟨n, hn, hid, hp⟩
    rw [(get_dagOf hd).2 ⟨n, hn, hid, rfl⟩]
    exact List.mem_map.2 hp

/-! ### Reading -/

theorem item_bind {α : Type} {payload : Payload} {key : String} {v : Value}
    {f : Value → Except PyError α} (h : OrdMap.get key payload = some v) :
    item payload key >>= f = f v := by
  rw [item, h]
  rfl

theorem mapM_expectBytes {bs : List Bytes} :
    (bs.map Value.bytes).mapM expectBytes = .ok bs := by
  induction bs with
  | nil => rfl
  | cons b bs ih =>
    rw [List.map_cons, List.mapM_cons, ih]
    rfl

theorem readDagNode_of_standsFor {v : Value} {n : IntentNode} (h : StandsFor v n) :
    ∃ fields, v = .map fields ∧ readDagNode fields = .ok n.node := by
  obtain ⟨fields, rfl, hhash, hparents, hcycle, htype⟩ := h
  refine ⟨fields, rfl, ?_⟩
  rw [readDagNode, item_bind hhash]
  show (item fields "parent_hashes" >>= expectArray >>= _) = _
  rw [item_bind hparents]
  show ((n.parentHashes.map Value.bytes).mapM expectBytes >>= _) = _
  rw [mapM_expectBytes]
  show (item fields "at_cycle" >>= expectUint >>= _) = _
  rw [item_bind hcycle]
  show (item fields "node_type" >>= expectString >>= _) = _
  rw [item_bind htype]
  rfl

theorem addNode_dagOf {v : Value} {n : IntentNode} (h : StandsFor v n)
    (hd : ((ns ++ [n]).map IntentNode.hash).Nodup)
    (hp : n.parentHashes ⊆ ns.map IntentNode.hash) :
    addNode (dagOf ns) v = .ok (dagOf (ns ++ [n])) := by
  obtain ⟨fields, rfl, hread⟩ := readDagNode_of_standsFor h
  rw [List.map_append, List.map_singleton, List.nodup_append] at hd
  obtain ⟨hd, -, hnew⟩ := hd
  show (reading "dag_node decode" (readDagNode fields) >>= fun node => (dagOf ns).add node) = _
  rw [hread]
  show (dagOf ns).add n.node = _
  have habsent : ¬ ((dagOf ns).get n.node.nodeId).isSome = true := by
    rw [isSome_get_dagOf hd]
    rintro ⟨m, hm, heq⟩
    exact hnew m.hash (List.mem_map_of_mem hm) n.hash (List.mem_singleton_self _)
      (hexEncode_injective heq)
  have hfind : n.node.parentIds.find? (fun p => ((dagOf ns).get p).isNone) = none := by
    rw [List.find?_eq_none]
    intro p hmem
    obtain ⟨ph, hph, rfl⟩ := List.mem_map.1 hmem
    obtain ⟨m, hm, heq⟩ := List.mem_map.1 (hp hph)
    rw [← Option.not_isSome, (isSome_get_dagOf hd).2 ⟨m, hm, by rw [heq]⟩]
    exact Bool.false_ne_true
  rw [InMemoryDagSource.add, if_neg habsent, hfind]
  unfold dagOf
  rw [List.map_append, List.map_singleton, OrdMap.ofList_append_singleton, List.map_append]
  rfl

/-- The DAG of the request is rebuilt. -/
theorem foldlM_addNode {vs : List Value} (hns : InOrder ns) (h : List.Forall₂ StandsFor vs ns) :
    vs.foldlM addNode .new = .ok (dagOf ns) := by
  have hrest : ∀ rest pre vs, ns = pre ++ rest → List.Forall₂ StandsFor vs rest →
      vs.foldlM addNode (dagOf pre) = .ok (dagOf ns) := by
    intro rest
    induction rest with
    | nil =>
      rintro pre vs rfl h
      cases h
      rw [List.append_nil]
      rfl
    | cons n rest ih =>
      rintro pre _ hpre (_ | ⟨hn, hrest⟩)
      have hsplit : ns = (pre ++ [n]) ++ rest := by rw [hpre, List.append_assoc]; rfl
      have hd := hns.distinct
      rw [hsplit, List.map_append, List.nodup_append] at hd
      rw [List.foldlM_cons, addNode_dagOf hn hd.1 (hns.earlier pre n rest hpre)]
      exact ih (pre ++ [n]) _ hsplit hrest
  exact hrest ns [] vs rfl h

theorem readIntent_of_carries {payload : Payload} {pivot : Bytes} {radius : UInt64}
    (h : Carries payload pivot radius ns) : ∃ vs, readIntent payload = .ok (pivot, radius, vs) ∧
      List.Forall₂ StandsFor vs ns := by
  obtain ⟨vs, hnodes, hvs⟩ := h.dagNodes
  refine ⟨vs, ?_, hvs⟩
  rw [readIntent, item_bind h.pivotHash]
  show (item payload "radius_cycles" >>= expectUint >>= _) = _
  rw [item_bind h.radiusCycles]
  show (item payload "dag_nodes" >>= expectArray >>= _) = _
  rw [item_bind hnodes]
  rfl

/-! ### What the queries find -/

/-- `p` is a parent of `c`. -/
def IsParent (ns : List IntentNode) (p c : Bytes) : Prop :=
  ∃ n ∈ ns, n.hash = c ∧ p ∈ n.parentHashes

/-- There is a pivot, and the node is within the radius of it. -/
def Near (ns : List IntentNode) (pivot : Bytes) (radius : UInt64) (h : Bytes) : Prop :=
  ∃ p ∈ ns, p.hash = pivot ∧ ∃ n ∈ ns, n.hash = h ∧
    ((n.atCycle.toNat : Int) - p.atCycle.toNat).natAbs ≤ radius.toNat

/-- An ancestor or a descendant of the other, or the other. -/
def Related (ns : List IntentNode) (h g : Bytes) : Prop :=
  h = g ∨ Relation.TransGen (IsParent ns) h g ∨ Relation.TransGen (IsParent ns) g h

/-- Near the pivot, or an ancestor or a descendant of what is. -/
def InScope (ns : List IntentNode) (pivot : Bytes) (radius : UInt64) (h : Bytes) : Prop :=
  ∃ g, Near ns pivot radius g ∧ Related ns h g

variable {pivot : Bytes} {radius : UInt64} {fuel : Nat} {order : SetOrder}

theorem mem_ids {dag : InMemoryDagSource} (h : dag = dagOf ns) :
    id ∈ dag.insertionOrder ↔ ∃ n ∈ ns, hexEncode n.hash = id := by
  rw [h]
  exact List.mem_map

theorem neighborhood_none {dag : InMemoryDagSource} {r : Int} (h : dag.get id = none) :
    neighborhood dag id r = ⟨[], true⟩ := by
  unfold neighborhood
  rw [h]
  split <;> rfl

theorem neighborhood_some {dag : InMemoryDagSource} {r : Int} {d : DagNode}
    (h : dag.get id = some d) : neighborhood dag id r =
      ⟨dag.insertionOrder.filter fun nid =>
        match dag.get nid with
        | none => false
        | some node => decide (((node.atCycle - d.atCycle).natAbs : Int) ≤ r), false⟩ := by
  have hne : ¬ dag.nodes.length = 0 := by
    have := List.length_pos_of_mem (OrdMap.mem_of_get h)
    omega
  unfold neighborhood
  rewrite [if_neg hne, h]
  rfl

theorem neighborhood_coldStart (hns : InOrder ns) (h : pivot ∉ ns.map IntentNode.hash) {r : Int} :
    neighborhood (dagOf ns) (hexEncode pivot) r = ⟨[], true⟩ := by
  refine neighborhood_none (Option.not_isSome_iff_eq_none.1 fun hs => h ?_)
  obtain ⟨n, hn, heq⟩ := (isSome_get_dagOf hns.distinct).1 hs
  exact List.mem_map.2 ⟨n, hn, hexEncode_injective heq⟩

theorem mem_neighborhood (hns : InOrder ns) :
    id ∈ (neighborhood (dagOf ns) (hexEncode pivot) radius.toNat).nodeIds ↔
      ∃ h, hexEncode h = id ∧ Near ns pivot radius h := by
  by_cases hp : pivot ∈ ns.map IntentNode.hash
  · obtain ⟨p, hpn, rfl⟩ := List.mem_map.1 hp
    rw [neighborhood_some ((get_dagOf hns.distinct).2 ⟨p, hpn, rfl, rfl⟩), List.mem_filter]
    constructor
    · rintro ⟨hid, hnear⟩
      obtain ⟨n, hn, rfl⟩ := (mem_ids rfl).1 hid
      rw [(get_dagOf hns.distinct).2 ⟨n, hn, rfl, rfl⟩] at hnear
      exact ⟨n.hash, rfl, p, hpn, rfl, n, hn, rfl, Int.ofNat_le.1 (of_decide_eq_true hnear)⟩
    · rintro ⟨_, rfl, q, hq, hqp, n, hn, rfl, hnear⟩
      cases List.inj_on_of_nodup_map hns.distinct hq hpn hqp
      refine ⟨(mem_ids rfl).2 ⟨n, hn, rfl⟩, ?_⟩
      rw [(get_dagOf hns.distinct).2 ⟨n, hn, rfl, rfl⟩]
      exact decide_eq_true (Int.ofNat_le.2 hnear)
  · rw [neighborhood_coldStart hns hp]
    refine iff_of_false List.not_mem_nil ?_
    rintro ⟨h, -, p, hpn, rfl, -⟩
    exact hp (List.mem_map_of_mem hpn)

/-- Parents by id. -/
theorem edge_parentsOf (hns : InOrder ns) {c : Bytes} :
    Edge (dagOf ns).parentsOf (hexEncode c) id ↔ ∃ p, hexEncode p = id ∧ IsParent ns p c := by
  unfold Edge
  rw [mem_parentsOf hns.distinct]
  constructor
  · rintro ⟨n, hn, hc, p, hp, rfl⟩
    exact ⟨p, rfl, n, hn, hexEncode_injective hc, hp⟩
  · rintro ⟨p, rfl, n, hn, rfl, hp⟩
    exact ⟨n, hn, rfl, p, hp, rfl⟩

theorem get_addChild {nid parent q : String} {index : List (String × List String)} :
    (OrdMap.get q (addChild nid index parent)).getD [] =
      (OrdMap.get q index).getD [] ++ if q = parent then [nid] else [] := by
  unfold addChild
  rw [OrdMap.get_insert utf8_injective]
  split
  · rename_i h
    rw [h]
    rfl
  · rw [List.append_nil]

theorem mem_addChildren {nid q c : String} {parents : List String}
    {index : List (String × List String)} :
    c ∈ (OrdMap.get q (parents.foldl (addChild nid) index)).getD [] ↔
      c ∈ (OrdMap.get q index).getD [] ∨ (c = nid ∧ q ∈ parents) := by
  induction parents generalizing index with
  | nil => simp
  | cons parent parents ih =>
    rw [List.foldl_cons, ih, get_addChild, List.mem_append, List.mem_cons]
    by_cases hq : q = parent
    · rw [if_pos hq, List.mem_singleton]
      tauto
    · rw [if_neg hq]
      simp only [List.not_mem_nil, or_false, hq, false_or]

/-- The child-index has the parents the other way round. -/
theorem mem_childrenOf {dag : InMemoryDagSource} {q c : String} :
    c ∈ (OrdMap.get q (childrenOf dag)).getD [] ↔
      c ∈ dag.insertionOrder ∧ q ∈ dag.parentsOf c := by
  have hgen : ∀ (ids : List String) index,
      c ∈ (OrdMap.get q (ids.foldl (fun index nid =>
        (dag.parentsOf nid).foldl (addChild nid) index) index)).getD [] ↔
      c ∈ (OrdMap.get q index).getD [] ∨ (c ∈ ids ∧ q ∈ dag.parentsOf c) := by
    intro ids
    induction ids with
    | nil => simp
    | cons nid ids ih =>
      intro index
      rw [List.foldl_cons, ih, mem_addChildren, List.mem_cons]
      constructor
      · rintro ((h | ⟨rfl, h⟩) | ⟨h, h'⟩)
        · exact .inl h
        · exact .inr ⟨.inl rfl, h⟩
        · exact .inr ⟨.inr h, h'⟩
      · rintro (h | ⟨rfl | h, h'⟩)
        · exact .inl (.inl h)
        · exact .inl (.inr ⟨rfl, h'⟩)
        · exact .inr ⟨h, h'⟩
  rw [childrenOf, hgen]
  simp

/-- Children by id. -/
theorem edge_childrenOf (hns : InOrder ns) {p : Bytes} :
    Edge (fun current => (OrdMap.get current (childrenOf (dagOf ns))).getD []) (hexEncode p) id ↔
      ∃ c, hexEncode c = id ∧ IsParent ns p c := by
  unfold Edge
  rw [mem_childrenOf, mem_ids rfl, mem_parentsOf hns.distinct]
  constructor
  · rintro ⟨-, n, hn, rfl, q, hq, heq⟩
    exact ⟨n.hash, rfl, n, hn, rfl, hexEncode_injective heq ▸ hq⟩
  · rintro ⟨_, rfl, n, hn, rfl, hp⟩
    exact ⟨⟨n, hn, rfl⟩, n, hn, rfl, p, hp, rfl⟩

/-- A path of ids is a path of hashes. -/
theorem transGen_hexEncode {succ : String → List String} {R : Bytes → Bytes → Prop}
    (h : ∀ a id, Edge succ (hexEncode a) id ↔ ∃ b, hexEncode b = id ∧ R a b) {a : Bytes} :
    Relation.TransGen (Edge succ) (hexEncode a) id ↔
      ∃ b, hexEncode b = id ∧ Relation.TransGen R a b := by
  constructor
  · intro hpath
    induction hpath with
    | single hstep =>
      obtain ⟨b, hb, hR⟩ := (h a _).1 hstep
      exact ⟨b, hb, .single hR⟩
    | tail _ hstep ih =>
      obtain ⟨b, rfl, hab⟩ := ih
      obtain ⟨c, hc, hR⟩ := (h b _).1 hstep
      exact ⟨c, hc, hab.tail hR⟩
  · rintro ⟨b, rfl, hpath⟩
    induction hpath with
    | single hR => exact .single ((h a _).2 ⟨_, rfl, hR⟩)
    | tail _ hR ih => exact ih.tail ((h _ _).2 ⟨_, rfl, hR⟩)

theorem parentsOf_subset (hns : InOrder ns) :
    (dagOf ns).parentsOf id ⊆ (dagOf ns).insertionOrder := by
  intro p hp
  obtain ⟨n, hn, -, ph, hph, rfl⟩ := (mem_parentsOf hns.distinct).1 hp
  obtain ⟨pre, post, hsplit⟩ := List.append_of_mem hn
  obtain ⟨m, hm, rfl⟩ := List.mem_map.1 (hns.earlier pre n post hsplit hph)
  exact (mem_ids rfl).2 ⟨m, hsplit ▸ List.mem_append_left _ hm, rfl⟩

variable {h : Bytes}

theorem causalAncestors_ends (hns : InOrder ns) (hh : h ∈ ns.map IntentNode.hash)
    (hfuel : ns.length + 1 ≤ fuel) :
    ∃ found, causalAncestors (dagOf ns) fuel (hexEncode h) = some found ∧
      ∀ id, id ∈ found ↔ ∃ g, hexEncode g = id ∧ Relation.TransGen (IsParent ns) g h := by
  obtain ⟨n, hn, rfl⟩ := List.mem_map.1 hh
  obtain ⟨found, hfound, hmem⟩ := @walkFrom_ends _ _ (dagOf ns).parentsOf
    (dagOf ns).insertionOrder (hexEncode n.hash) (fun _ => parentsOf_subset hns) fuel
    (by rwa [dagOf, List.length_map])
  refine ⟨found, ?_, fun id => ?_⟩
  · rw [causalAncestors, (get_dagOf hns.distinct).2 ⟨n, hn, rfl, rfl⟩]
    exact hfound
  · rw [hmem, transGen_hexEncode (R := fun c p => IsParent ns p c) fun c id => edge_parentsOf hns]
    exact exists_congr fun g => and_congr_right fun _ => Relation.transGen_swap

theorem causalDescendants_ends (hns : InOrder ns) (hh : h ∈ ns.map IntentNode.hash)
    (hfuel : ns.length + 1 ≤ fuel) :
    ∃ found, causalDescendants (dagOf ns) fuel (hexEncode h) = some found ∧
      ∀ id, id ∈ found ↔ ∃ g, hexEncode g = id ∧ Relation.TransGen (IsParent ns) h g := by
  obtain ⟨n, hn, rfl⟩ := List.mem_map.1 hh
  obtain ⟨found, hfound, hmem⟩ := @walkFrom_ends _ _
    (fun current => (OrdMap.get current (childrenOf (dagOf ns))).getD [])
    (dagOf ns).insertionOrder (hexEncode n.hash) (fun _ c hc => (mem_childrenOf.1 hc).1) fuel
    (by rwa [dagOf, List.length_map])
  refine ⟨found, ?_, fun id => ?_⟩
  · rw [causalDescendants, (get_dagOf hns.distinct).2 ⟨n, hn, rfl, rfl⟩]
    exact hfound
  · rw [hmem, transGen_hexEncode (R := IsParent ns) fun p id => edge_childrenOf hns]

theorem mem_setUpdate {s t : List String} : id ∈ setUpdate order s t ↔ id ∈ s ∨ id ∈ t := by
  have hfold : ∀ xs s : List String,
      id ∈ xs.foldl (fun s x => s.insert x) s ↔ id ∈ s ∨ id ∈ xs := by
    intro xs
    induction xs with
    | nil => simp
    | cons x xs ih =>
      intro s
      rw [List.foldl_cons, ih, List.mem_insert_iff, List.mem_cons]
      tauto
  rw [setUpdate, hfold, (order.perm t).mem_iff]

theorem nodup_setUpdate {s t : List String} (h : s.Nodup) : (setUpdate order s t).Nodup := by
  unfold setUpdate
  generalize order.order t = xs
  induction xs generalizing s with
  | nil => exact h
  | cons x xs ih => exact ih h.insert

/-- What is related to the ids is added to what has been found. -/
theorem foldlM_related (hns : InOrder ns) (hfuel : ns.length + 1 ≤ fuel) {ids : List String}
    (hids : ∀ id ∈ ids, ∃ h ∈ ns.map IntentNode.hash, hexEncode h = id) {found : List String}
    (hfound : found.Nodup) :
    ∃ full, ids.foldlM (fun result nid => do
        let ancestors ← causalAncestors (dagOf ns) fuel nid
        let descendants ← causalDescendants (dagOf ns) fuel nid
        return setUpdate order (setUpdate order (result.insert nid) ancestors) descendants)
        found = some full ∧ full.Nodup ∧
      ∀ id, id ∈ full ↔ id ∈ found ∨
        ∃ h, hexEncode h = id ∧ ∃ g, hexEncode g ∈ ids ∧ Related ns h g := by
  induction ids generalizing found with
  | nil => exact ⟨found, rfl, hfound, by simp⟩
  | cons nid ids ih =>
    rw [List.forall_mem_cons] at hids
    obtain ⟨⟨g, hg, rfl⟩, hids⟩ := hids
    obtain ⟨ancestors, hancestors, hmem⟩ := causalAncestors_ends hns hg hfuel
    obtain ⟨descendants, hdescendants, hmem'⟩ := causalDescendants_ends hns hg hfuel
    have hnew : (setUpdate order (setUpdate order (found.insert (hexEncode g)) ancestors)
      descendants).Nodup := nodup_setUpdate (nodup_setUpdate hfound.insert)
    obtain ⟨full, hfull, hnodup, hrest⟩ := ih hids hnew
    refine ⟨full, ?_, hnodup, fun id => ?_⟩
    · rw [List.foldlM_cons, hancestors, hdescendants]
      exact hfull
    · rw [hrest, mem_setUpdate, mem_setUpdate, List.mem_insert_iff, hmem, hmem']
      constructor
      · rintro ((((rfl | hid) | ⟨h, rfl, hanc⟩) | ⟨h, rfl, hdesc⟩) | ⟨h, rfl, g', hg', hrel⟩)
        · exact .inr ⟨g, rfl, g, List.mem_cons_self, .inl rfl⟩
        · exact .inl hid
        · exact .inr ⟨h, rfl, g, List.mem_cons_self, .inr (.inl hanc)⟩
        · exact .inr ⟨h, rfl, g, List.mem_cons_self, .inr (.inr hdesc)⟩
        · exact .inr ⟨h, rfl, g', List.mem_cons_of_mem _ hg', hrel⟩
      · rintro (hid | ⟨h, rfl, g', hg', hrel⟩)
        · exact .inl (.inl (.inl (.inr hid)))
        · rcases List.mem_cons.1 hg' with heq | hg'
          · cases hexEncode_injective heq
            rcases hrel with rfl | hanc | hdesc
            · exact .inl (.inl (.inl (.inl rfl)))
            · exact .inl (.inl (.inr ⟨h, rfl, hanc⟩))
            · exact .inl (.inr ⟨h, rfl, hdesc⟩)
          · exact .inr ⟨h, rfl, g', hg', hrel⟩

/-- With enough fuel the full set is the scope of the pivot. -/
theorem fullSet_ends (hns : InOrder ns) (hfuel : ns.length + 1 ≤ fuel) :
    ∃ full, causalAncestorsAndDescendants order (dagOf ns) fuel
        (neighborhood (dagOf ns) (hexEncode pivot) radius.toNat).nodeIds = some full ∧
      full.Nodup ∧ ∀ id, id ∈ full ↔ ∃ h, hexEncode h = id ∧ InScope ns pivot radius h := by
  obtain ⟨full, hfull, hnodup, hmem⟩ := @foldlM_related _ fuel order hns hfuel
    (neighborhood (dagOf ns) (hexEncode pivot) radius.toNat).nodeIds (fun id hid => by
      obtain ⟨h, rfl, hnear⟩ := (mem_neighborhood hns).1 hid
      obtain ⟨-, -, -, n, hn, rfl, -⟩ := hnear
      exact ⟨n.hash, List.mem_map_of_mem hn, rfl⟩) [] List.nodup_nil
  refine ⟨full, hfull, hnodup, fun id => ?_⟩
  rw [hmem, or_iff_right List.not_mem_nil]
  refine exists_congr fun h => and_congr_right fun _ => exists_congr fun g =>
    and_congr_left fun _ => ?_
  rw [mem_neighborhood hns]
  constructor
  · rintro ⟨g', heq, hnear⟩
    exact hexEncode_injective heq ▸ hnear
  · exact fun hnear => ⟨g, rfl, hnear⟩

end Myco.Trajectory
