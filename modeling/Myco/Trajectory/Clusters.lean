import Myco.Trajectory.Queries

/-!
# The clusters of an intent

The components of the scope of a pivot, under parent edges in either direction. The loop over the
starts goes through the scope in order, so the start of a cluster is the smallest of its nodes, and
the clusters are numbered by their smallest (`clusterFrom_ends`). `intent_exact` is what the whole
handler answers.
-/

namespace Myco.Trajectory

open Myco.Lib Myco.Canonical
open Myco.Substrate (hexEncode)
open Myco.Tropism (Payload)

variable {order : SetOrder} {dag : InMemoryDagSource} {fuel : Nat}

/-! ### Adjacency -/

abbrev Adjacency := List (String × List String)

def neighbors (adj : Adjacency) (x : String) : List String := (OrdMap.get x adj).getD []

theorem mem_addNeighbor {a b x y : String} {adj : Adjacency} :
    y ∈ neighbors (addNeighbor a b adj) x ↔ y ∈ neighbors adj x ∨ (x = a ∧ y = b) := by
  unfold neighbors addNeighbor
  rw [OrdMap.get_insert utf8_injective]
  split
  · rename_i h
    rw [Option.getD_some, List.mem_insert_iff, h]
    tauto
  · rename_i h
    simp only [h, false_and, or_false]

theorem isSome_addNeighbor {a b x : String} {adj : Adjacency}
    (ha : (OrdMap.get a adj).isSome = true) :
    (OrdMap.get x (addNeighbor a b adj)).isSome = true ↔ (OrdMap.get x adj).isSome = true := by
  unfold addNeighbor
  rw [OrdMap.get_insert utf8_injective]
  split
  · rename_i h
    exact iff_of_true rfl (h ▸ ha)
  · exact Iff.rfl

/-- Its keys are the ids of `scope`. -/
def Keyed (scope : List String) (adj : Adjacency) : Prop :=
  ∀ x, (OrdMap.get x adj).isSome = true ↔ x ∈ scope

/-- The edges of a node to the parents that are in the set are added, both ways. -/
theorem linkParents_adds {scope : List String} {adj : Adjacency} {nid : String}
    (hk : Keyed scope adj) (hn : nid ∈ scope) :
    Keyed scope (linkParents dag adj nid) ∧ ∀ x y,
      y ∈ neighbors (linkParents dag adj nid) x ↔ y ∈ neighbors adj x ∨
        (x = nid ∧ y ∈ dag.parentsOf nid ∧ y ∈ scope) ∨
        (y = nid ∧ x ∈ dag.parentsOf nid ∧ x ∈ scope) := by
  unfold linkParents
  generalize dag.parentsOf nid = parents
  induction parents generalizing adj with
  | nil => exact ⟨hk, by simp⟩
  | cons parent parents ih =>
    rw [List.foldl_cons]
    by_cases hp : parent ∈ scope
    · have hsome := (hk parent).2 hp
      have hnid := (hk nid).2 hn
      have hk' : Keyed scope (addNeighbor parent nid (addNeighbor nid parent adj)) := by
        intro x
        rw [isSome_addNeighbor ((isSome_addNeighbor hnid).2 hsome), isSome_addNeighbor hnid, hk]
      rw [if_pos hsome]
      obtain ⟨hkeys, hmem⟩ := ih hk'
      refine ⟨hkeys, fun x y => ?_⟩
      rw [hmem, mem_addNeighbor, mem_addNeighbor, List.mem_cons, List.mem_cons]
      constructor
      · rintro (((h | ⟨rfl, rfl⟩) | ⟨rfl, rfl⟩) | ⟨h, h', h''⟩ | ⟨h, h', h''⟩)
        · exact .inl h
        · exact .inr (.inl ⟨rfl, .inl rfl, hp⟩)
        · exact .inr (.inr ⟨rfl, .inl rfl, hp⟩)
        · exact .inr (.inl ⟨h, .inr h', h''⟩)
        · exact .inr (.inr ⟨h, .inr h', h''⟩)
      · rintro (h | ⟨rfl, rfl | h, h'⟩ | ⟨rfl, rfl | h, h'⟩)
        · exact .inl (.inl (.inl h))
        · exact .inl (.inl (.inr ⟨rfl, rfl⟩))
        · exact .inr (.inl ⟨rfl, h, h'⟩)
        · exact .inl (.inr ⟨rfl, rfl⟩)
        · exact .inr (.inr ⟨rfl, h, h'⟩)
    · have hnone : ¬ (OrdMap.get parent adj).isSome = true := fun h => hp ((hk parent).1 h)
      rw [if_neg hnone]
      obtain ⟨hkeys, hmem⟩ := ih hk
      refine ⟨hkeys, fun x y => ?_⟩
      rw [hmem, List.mem_cons, List.mem_cons]
      constructor
      · rintro (h | ⟨h, h', h''⟩ | ⟨h, h', h''⟩)
        · exact .inl h
        · exact .inr (.inl ⟨h, .inr h', h''⟩)
        · exact .inr (.inr ⟨h, .inr h', h''⟩)
      · rintro (h | ⟨rfl, rfl | h, h'⟩ | ⟨rfl, rfl | h, h'⟩)
        · exact .inl h
        · exact absurd h' hp
        · exact .inr (.inl ⟨rfl, h, h'⟩)
        · exact absurd h' hp
        · exact .inr (.inr ⟨rfl, h, h'⟩)

theorem foldl_linkParents {scope ids : List String} {adj : Adjacency} (hk : Keyed scope adj)
    (hids : ids ⊆ scope) {x y : String} :
    y ∈ neighbors (ids.foldl (linkParents dag) adj) x ↔ y ∈ neighbors adj x ∨
      (x ∈ ids ∧ y ∈ dag.parentsOf x ∧ y ∈ scope) ∨
      (y ∈ ids ∧ x ∈ dag.parentsOf y ∧ x ∈ scope) := by
  induction ids generalizing adj with
  | nil => simp
  | cons nid ids ih =>
    rw [List.cons_subset] at hids
    obtain ⟨hkeys, hmem⟩ := @linkParents_adds dag _ _ _ hk hids.1
    rw [List.foldl_cons, ih hkeys hids.2, hmem, List.mem_cons, List.mem_cons]
    constructor
    · rintro ((h | ⟨rfl, h⟩ | ⟨rfl, h⟩) | ⟨h, h'⟩ | ⟨h, h'⟩)
      · exact .inl h
      · exact .inr (.inl ⟨.inl rfl, h⟩)
      · exact .inr (.inr ⟨.inl rfl, h⟩)
      · exact .inr (.inl ⟨.inr h, h'⟩)
      · exact .inr (.inr ⟨.inr h, h'⟩)
    · rintro (h | ⟨rfl | h, h'⟩ | ⟨rfl | h, h'⟩)
      · exact .inl (.inl h)
      · exact .inl (.inr (.inl ⟨rfl, h'⟩))
      · exact .inr (.inl ⟨h, h'⟩)
      · exact .inl (.inr (.inr ⟨rfl, h'⟩))
      · exact .inr (.inr ⟨h, h'⟩)

/-- `{nid: set() for nid in node_ids}` -/
theorem get_emptySets {ids : List String} {adj : Adjacency} {x : String} :
    OrdMap.get x (ids.foldl (fun adj nid => OrdMap.insert utf8 nid [] adj) adj) =
      if x ∈ ids then some [] else OrdMap.get x adj := by
  induction ids generalizing adj with
  | nil => simp
  | cons nid ids ih =>
    rw [List.foldl_cons, ih, OrdMap.get_insert utf8_injective]
    by_cases hx : x ∈ ids
    · rw [if_pos hx, if_pos (List.mem_cons_of_mem _ hx)]
    · by_cases heq : x = nid
      · rw [if_neg hx, if_pos heq, if_pos (List.mem_cons.2 (.inl heq))]
      · rw [if_neg hx, if_neg heq, if_neg (by simp [hx, heq])]

/-- Two ids of the scope are neighbours if one is a parent of the other. -/
theorem mem_adjacency {scope : List String} {x y : String} :
    y ∈ neighbors (adjacency order dag scope) x ↔
      x ∈ scope ∧ y ∈ scope ∧ (y ∈ dag.parentsOf x ∨ x ∈ dag.parentsOf y) := by
  have horder : ∀ z, z ∈ order.order scope ↔ z ∈ scope := fun z => (order.perm scope).mem_iff
  have hk : Keyed scope
      ((order.order scope).foldl (fun adj nid => OrdMap.insert utf8 nid [] adj) []) := by
    intro z
    rw [get_emptySets, ← horder]
    split
    · rename_i h
      exact iff_of_true rfl h
    · rename_i h
      exact iff_of_false Bool.false_ne_true h
  have hnil : y ∉ neighbors
      ((order.order scope).foldl (fun adj nid => OrdMap.insert utf8 nid [] adj) []) x := by
    rw [neighbors, get_emptySets]
    split <;> exact List.not_mem_nil
  rw [adjacency, foldl_linkParents hk fun z hz => (horder z).1 hz, horder, horder]
  tauto

/-! ### The loop over the starts -/

/-- The clusters that are still to be found when `visited` has been. -/
structure Partitions (adj : String → List String) (scope visited : List String) (k : Nat)
    (cs : List Cluster) : Prop where
  ids : cs.map Cluster.clusterId = List.range' k cs.length
  nodup : ∀ c ∈ cs, c.nodeIds.Nodup
  fresh : ∀ c ∈ cs, ∀ x ∈ c.nodeIds, x ∈ scope ∧ x ∉ visited
  component : ∀ c ∈ cs, ∃ s ∈ c.nodeIds,
    (∀ y, y ∈ c.nodeIds ↔ Relation.ReflTransGen (Edge adj) s y) ∧
    ∀ y ∈ c.nodeIds, utf8 s ≤ utf8 y
  covers : ∀ x ∈ scope, x ∉ visited → ∃ c ∈ cs, x ∈ c.nodeIds
  ordered : cs.Pairwise fun c d =>
    (∀ x ∈ c.nodeIds, x ∉ d.nodeIds) ∧ ∃ s ∈ c.nodeIds, ∀ y ∈ d.nodeIds, utf8 s < utf8 y

variable {adj : String → List String} {scope : List String}

/-- The loop ends, and has found the components in the order of their smallest ids. -/
theorem clusterFrom_ends (hclosed : ∀ x, adj x ⊆ scope) (hsymm : ∀ x, ∀ y ∈ adj x, x ∈ adj y)
    (hfuel : 1 + (scope.map fun x => (adj x).length).sum ≤ fuel) {starts visited : List String}
    (hsorted : starts.Pairwise fun a b => utf8 a ≤ utf8 b) (hstarts : starts ⊆ scope)
    (hvisited : ∀ x ∈ visited, adj x ⊆ visited)
    (hrest : ∀ x ∈ scope, x ∉ visited → x ∈ starts) (k : Nat) :
    ∃ cs, clusterFrom adj fuel starts visited k = some cs ∧ Partitions adj scope visited k cs := by
  induction starts generalizing visited k with
  | nil =>
    exact ⟨[], rfl, rfl, by simp, by simp, by simp, fun x hx hn => absurd (hrest x hx hn)
      List.not_mem_nil, List.Pairwise.nil⟩
  | cons start starts ih =>
    rw [List.pairwise_cons] at hsorted
    rw [List.cons_subset] at hstarts
    unfold clusterFrom
    by_cases hv : start ∈ visited
    · rw [if_pos hv]
      refine ih hsorted.2 hstarts.2 hvisited (fun x hx hn => ?_) k
      exact (List.mem_cons.1 (hrest x hx hn)).resolve_left fun h => hn (h ▸ hv)
    · obtain ⟨w, hw, hnodup, hparts, hapart, hmem⟩ :=
        flood_ends hclosed hstarts.1 hsymm hvisited hv hfuel
      have hself : start ∈ w.component := (hmem start).2 .refl
      have hscope : ∀ x ∈ w.component, x ∈ scope := by
        intro x hx
        rcases Relation.ReflTransGen.cases_tail ((hmem x).1 hx) with rfl | ⟨z, -, hzx⟩
        · exact hstarts.1
        · exact hclosed z hzx
      have hwvisited : ∀ x ∈ w.visited, adj x ⊆ w.visited := by
        intro x hx y hy
        rcases (hparts x).1 hx with hx | hx
        · exact (hparts y).2 (.inl (hvisited x hx hy))
        · exact (hparts y).2 (.inr ((hmem y).2 (((hmem x).1 hx).tail hy)))
      have hlater : ∀ x ∈ scope, x ∉ w.visited → x ∈ starts ∧ start ≠ x := by
        intro x hx hn
        rw [hparts, not_or] at hn
        have hne : start ≠ x := fun h => hn.2 (h ▸ hself)
        exact ⟨(List.mem_cons.1 (hrest x hx hn.1)).resolve_left (Ne.symm hne), hne⟩
      obtain ⟨cs, hcs, hp⟩ :=
        ih hsorted.2 hstarts.2 hwvisited (fun x hx hn => (hlater x hx hn).1) (k + 1)
      refine ⟨⟨k, w.component⟩ :: cs, ?_, ?_, ?_, ?_, ?_, fun x hx hn => ?_, ?_⟩
      · rw [if_neg hv, hw]
        show (clusterFrom adj fuel starts w.visited (k + 1) >>= _) = _
        rw [hcs]
        rfl
      · rw [List.map_cons, hp.ids]
        rfl
      · exact List.forall_mem_cons.2 ⟨hnodup, hp.nodup⟩
      · refine List.forall_mem_cons.2 ⟨fun x hx => ⟨hscope x hx, hapart x hx⟩, fun c hc x hx => ?_⟩
        obtain ⟨hx, hn⟩ := hp.fresh c hc x hx
        exact ⟨hx, fun h => hn ((hparts x).2 (.inl h))⟩
      · refine List.forall_mem_cons.2 ⟨⟨start, hself, hmem, fun y hy => ?_⟩, hp.component⟩
        rcases List.mem_cons.1 (hrest y (hscope y hy) (hapart y hy)) with rfl | hy
        · exact le_refl _
        · exact hsorted.1 y hy
      · by_cases hx' : x ∈ w.component
        · exact ⟨_, List.mem_cons_self, hx'⟩
        · obtain ⟨c, hc, hxc⟩ := hp.covers x hx fun h => ((hparts x).1 h).elim hn hx'
          exact ⟨c, List.mem_cons_of_mem _ hc, hxc⟩
      · refine List.pairwise_cons.2 ⟨fun d hd => ⟨fun x hx hxd => ?_, start, hself, fun y hy => ?_⟩,
          hp.ordered⟩
        · exact (hp.fresh d hd x hxd).2 ((hparts x).2 (.inr hx))
        · obtain ⟨hy, hn⟩ := hp.fresh d hd y hy
          obtain ⟨hy, hne⟩ := hlater y hy hn
          exact lt_of_le_of_ne (hsorted.1 y hy) fun h => hne (utf8_injective h)

/-! ### Nobody is a neighbour twice -/

theorem nodup_addNeighbor {a b : String} {adj : Adjacency} (h : ∀ x, (neighbors adj x).Nodup)
    (x : String) : (neighbors (addNeighbor a b adj) x).Nodup := by
  unfold neighbors addNeighbor
  rw [OrdMap.get_insert utf8_injective]
  split
  · exact (h a).insert
  · exact h x

theorem nodup_linkParents {nid : String} {adj : Adjacency} (h : ∀ x, (neighbors adj x).Nodup) :
    ∀ x, (neighbors (linkParents dag adj nid) x).Nodup := by
  unfold linkParents
  generalize dag.parentsOf nid = parents
  induction parents generalizing adj with
  | nil => exact h
  | cons parent parents ih =>
    rw [List.foldl_cons]
    split
    · exact ih (nodup_addNeighbor (nodup_addNeighbor h))
    · exact ih h

theorem nodup_adjacency {scope : List String} (x : String) :
    (neighbors (adjacency order dag scope) x).Nodup := by
  have hfold : ∀ (ids : List String) (adj : Adjacency), (∀ x, (neighbors adj x).Nodup) →
      ∀ x, (neighbors (ids.foldl (linkParents dag) adj) x).Nodup := by
    intro ids
    induction ids with
    | nil => exact fun _ h => h
    | cons nid ids ih => exact fun adj h => ih _ (nodup_linkParents h)
  refine hfold _ _ (fun x => ?_) x
  rw [neighbors, get_emptySets]
  split <;> exact List.nodup_nil

/-- No more edges than pairs of nodes. -/
theorem sum_adjacency_le {scope : List String} {n : Nat} (hlen : scope.length ≤ n) :
    (scope.map fun x => (order.order (neighbors (adjacency order dag scope) x)).length).sum ≤
      n * n := by
  have hle : ∀ x, (order.order (neighbors (adjacency order dag scope) x)).length ≤ n := by
    intro x
    rw [(order.perm _).length_eq]
    refine le_trans (((nodup_adjacency x).subperm fun y hy => ?_).length_le) hlen
    exact (mem_adjacency.1 hy).2.1
  have hsum := List.sum_le_card_nsmul (scope.map fun x =>
    (order.order (neighbors (adjacency order dag scope) x)).length) n
    (by simpa using fun x _ => hle x)
  rw [List.length_map] at hsum
  exact hsum.trans (Nat.mul_le_mul_right n hlen)

/-! ### Reports -/

/-- The report of a cluster whose ids are hashes. -/
def Cluster.reported (order : SetOrder) (c : Cluster) : ClusterReport :=
  ⟨c.clusterId, c.nodeIds.length,
    (sortedIds (order.order c.nodeIds)).map fun id => (fromHex id.toList).getD []⟩

/-- The ids of a cluster are hashes in hexadecimal. -/
def Cluster.IsHex (c : Cluster) : Prop := ∀ id ∈ c.nodeIds, ∃ h, hexEncode h = id

theorem mapM_hashOfId {ids : List String} (h : ∀ id ∈ ids, ∃ g, hexEncode g = id) :
    ids.mapM hashOfId = .ok (ids.map fun id => (fromHex id.toList).getD []) := by
  induction ids with
  | nil => rfl
  | cons id ids ih =>
    rw [List.forall_mem_cons] at h
    obtain ⟨⟨g, rfl⟩, h⟩ := h
    rw [List.mapM_cons, hashOfId, fromHex_hexEncode, ih h, List.map_cons, fromHex_hexEncode]
    rfl

theorem perm_sortedIds {ids : List String} : (sortedIds (order.order ids)).Perm ids :=
  (List.perm_insertionSort _ _).trans (order.perm _)

theorem mapM_report {cs : List Cluster} (h : ∀ c ∈ cs, c.IsHex) :
    cs.mapM (Cluster.report order) = .ok (cs.map (Cluster.reported order)) := by
  induction cs with
  | nil => rfl
  | cons c cs ih =>
    rw [List.forall_mem_cons] at h
    have hreport : c.report order = .ok (c.reported order) := by
      rw [Cluster.report, mapM_hashOfId fun id hid => h.1 id (perm_sortedIds.mem_iff.1 hid)]
      rfl
    rw [List.mapM_cons, hreport, ih h.2]
    rfl

theorem map_reported {c : Cluster} (h : c.IsHex) :
    (c.reported order).nodeHashes.map hexEncode = sortedIds (order.order c.nodeIds) := by
  unfold Cluster.reported
  rw [List.map_map]
  refine (List.map_congr_left fun id hid => ?_).trans (List.map_id _)
  obtain ⟨g, rfl⟩ := h id (perm_sortedIds.mem_iff.1 hid)
  rw [Function.comp_apply, fromHex_hexEncode]
  rfl

theorem mem_reported {c : Cluster} (h : c.IsHex) {g : Bytes} :
    g ∈ (c.reported order).nodeHashes ↔ hexEncode g ∈ c.nodeIds := by
  rw [← List.mem_map_of_injective hexEncode_injective, map_reported h, perm_sortedIds.mem_iff]

theorem nodup_reported {c : Cluster} (h : c.IsHex) (hc : c.nodeIds.Nodup) :
    (c.reported order).nodeHashes.Nodup := by
  refine List.Nodup.of_map hexEncode ?_
  rw [map_reported h]
  exact perm_sortedIds.nodup_iff.2 hc

/-! ### The answer -/

/-- Joined by a path of parent edges, in either direction, inside the scope. -/
def Joined (ns : List IntentNode) (pivot : Bytes) (radius : UInt64) : Bytes → Bytes → Prop :=
  Relation.ReflTransGen fun g h => InScope ns pivot radius g ∧ InScope ns pivot radius h ∧
    (IsParent ns g h ∨ IsParent ns h g)

/-- The clusters are the components of the scope, numbered by their smallest hashes. -/
structure ExactClusters (ns : List IntentNode) (pivot : Bytes) (radius : UInt64)
    (r : IntentResponse) : Prop where
  covers : ∀ h, (∃ c ∈ r.clusters, h ∈ c.nodeHashes) ↔ InScope ns pivot radius h
  apart : r.clusters.Pairwise fun c d => ∀ h ∈ c.nodeHashes, h ∉ d.nodeHashes
  nodup : ∀ c ∈ r.clusters, c.nodeHashes.Nodup
  joined : ∀ c ∈ r.clusters, ∀ g ∈ c.nodeHashes, ∀ h,
    h ∈ c.nodeHashes ↔ Joined ns pivot radius g h
  ids : r.clusters.map ClusterReport.clusterId = List.range r.clusters.length
  ordered : r.clusters.Pairwise fun c d => ∃ a ∈ c.nodeHashes, ∃ b ∈ d.nodeHashes,
    (∀ h ∈ c.nodeHashes, a ≤ h) ∧ (∀ h ∈ d.nodeHashes, b ≤ h) ∧ a < b
  cold : pivot ∉ ns.map IntentNode.hash → r.clusters = [] ∧ r.coldStart = true

variable {ns : List IntentNode} {pivot : Bytes} {radius : UInt64}

/-- A path of ids, of any length, is a path of hashes. -/
theorem reflTransGen_hexEncode {succ : String → List String} {R : Bytes → Bytes → Prop}
    (h : ∀ a id, Edge succ (hexEncode a) id ↔ ∃ b, hexEncode b = id ∧ R a b) {a b : Bytes} :
    Relation.ReflTransGen (Edge succ) (hexEncode a) (hexEncode b) ↔
      Relation.ReflTransGen R a b := by
  rw [Relation.reflTransGen_iff_eq_or_transGen, Relation.reflTransGen_iff_eq_or_transGen,
    transGen_hexEncode h, hexEncode_injective.eq_iff]
  refine or_congr_right ⟨?_, fun h => ⟨b, rfl, h⟩⟩
  rintro ⟨c, heq, hpath⟩
  exact hexEncode_injective heq ▸ hpath

theorem hexEncode_le {a b : Bytes} : utf8 (hexEncode a) ≤ utf8 (hexEncode b) ↔ a ≤ b := by
  rw [← not_lt, ← not_lt, hexEncode_lt]

theorem joined_symmetric {g h : Bytes} (hp : Joined ns pivot radius g h) :
    Joined ns pivot radius h g := by
  induction hp with
  | refl => exact .refl
  | tail _ hstep ih => exact .head ⟨hstep.2.1, hstep.1, hstep.2.2.symm⟩ ih

section

variable {adj : String → List String} {full : List String} {cs : List Cluster} {c : Cluster}

/-- The ids of the scope, and the edges between them. -/
structure Represents (ns : List IntentNode) (pivot : Bytes) (radius : UInt64) (full : List String)
    (adj : String → List String) : Prop where
  scope : ∀ id, id ∈ full ↔ ∃ h, hexEncode h = id ∧ InScope ns pivot radius h
  edge : ∀ a id, Edge adj (hexEncode a) id ↔ ∃ b, hexEncode b = id ∧
    InScope ns pivot radius a ∧ InScope ns pivot radius b ∧ (IsParent ns a b ∨ IsParent ns b a)

theorem Represents.mem (h : Represents ns pivot radius full adj) {g : Bytes} :
    hexEncode g ∈ full ↔ InScope ns pivot radius g := by
  rw [h.scope]
  exact ⟨fun ⟨g', heq, hg⟩ => hexEncode_injective heq ▸ hg, fun hg => ⟨g, rfl, hg⟩⟩

theorem isHex_of_partitions (h : Represents ns pivot radius full adj)
    (hp : Partitions adj full [] 0 cs) (hc : c ∈ cs) : c.IsHex := by
  intro id hid
  obtain ⟨g, hg, -⟩ := (h.scope id).1 (hp.fresh c hc id hid).1
  exact ⟨g, hg⟩

/-- The hashes of a cluster are a component, and one of them is the smallest. -/
theorem reported_component (h : Represents ns pivot radius full adj)
    (hp : Partitions adj full [] 0 cs) (hc : c ∈ cs) :
    ∃ s ∈ (c.reported order).nodeHashes,
      (∀ g, g ∈ (c.reported order).nodeHashes ↔ Joined ns pivot radius s g) ∧
      ∀ g ∈ (c.reported order).nodeHashes, s ≤ g := by
  have hhex := isHex_of_partitions h hp hc
  obtain ⟨s, hs, hmem, hle⟩ := hp.component c hc
  obtain ⟨s, rfl⟩ := hhex s hs
  refine ⟨s, (mem_reported hhex).2 hs, fun g => ?_, fun g hg => ?_⟩
  · rw [mem_reported hhex, hmem, reflTransGen_hexEncode h.edge]
    rfl
  · exact hexEncode_le.1 (hle _ ((mem_reported hhex).1 hg))

/-- What the answer says, from what the clusters are. -/
theorem exactClusters_of_partitions (h : Represents ns pivot radius full adj)
    (hp : Partitions adj full [] 0 cs) {r : IntentResponse}
    (hr : r.clusters = cs.map (Cluster.reported order))
    (hcold : pivot ∉ ns.map IntentNode.hash → full = [] ∧ r.coldStart = true) :
    ExactClusters ns pivot radius r := by
  have hhex := fun c hc => isHex_of_partitions h hp (c := c) hc
  refine ⟨fun g => ?_, ?_, ?_, ?_, ?_, ?_, fun hn => ⟨?_, (hcold hn).2⟩⟩
  · rw [hr, ← h.mem]
    constructor
    · rintro ⟨_, hr', hg⟩
      obtain ⟨c, hc, rfl⟩ := List.mem_map.1 hr'
      exact (hp.fresh c hc _ ((mem_reported (hhex c hc)).1 hg)).1
    · intro hg
      obtain ⟨c, hc, hg⟩ := hp.covers _ hg List.not_mem_nil
      exact ⟨c.reported order, List.mem_map_of_mem hc, (mem_reported (hhex c hc)).2 hg⟩
  · rw [hr, List.pairwise_map]
    refine hp.ordered.imp_of_mem fun hc hd hcd g hg hg' => ?_
    exact hcd.1 _ ((mem_reported (hhex _ hc)).1 hg) ((mem_reported (hhex _ hd)).1 hg')
  · rw [hr, List.forall_mem_map]
    exact fun c hc => nodup_reported (hhex c hc) (hp.nodup c hc)
  · rw [hr, List.forall_mem_map]
    intro c hc g hg k
    obtain ⟨s, -, hmem, -⟩ := @reported_component order _ _ _ _ _ _ _ h hp hc
    rw [hmem]
    have hsg := (hmem g).1 hg
    exact ⟨fun hk => (joined_symmetric hsg).trans hk, fun hk => hsg.trans hk⟩
  · rw [hr, List.map_map, List.length_map, List.range_eq_range']
    exact hp.ids
  · rw [hr, List.pairwise_map]
    refine hp.ordered.imp_of_mem fun hc hd hcd => ?_
    obtain ⟨a, ha, -, hale⟩ := @reported_component order _ _ _ _ _ _ _ h hp hc
    obtain ⟨b, hb, -, hble⟩ := @reported_component order _ _ _ _ _ _ _ h hp hd
    refine ⟨a, ha, b, hb, hale, hble, ?_⟩
    obtain ⟨-, s, hs, hlt⟩ := hcd
    obtain ⟨s, rfl⟩ := hhex _ hc s hs
    have has := hale s ((mem_reported (hhex _ hc)).2 hs)
    exact lt_of_le_of_lt has (hexEncode_lt.1 (hlt _ ((mem_reported (hhex _ hd)).1 hb)))
  · have hnil : cs = [] := by
      refine List.eq_nil_iff_forall_not_mem.2 fun c hc => ?_
      obtain ⟨s, hs, -⟩ := hp.component c hc
      have := (hp.fresh c hc s hs).1
      rw [(hcold hn).1] at this
      cases this
    rw [hr, hnil]
    rfl

end

/-! ### The handler's clusters -/

theorem IsParent.mem (hns : InOrder ns) {p c : Bytes} (h : IsParent ns p c) :
    p ∈ ns.map IntentNode.hash ∧ c ∈ ns.map IntentNode.hash := by
  obtain ⟨n, hn, rfl, hp⟩ := h
  obtain ⟨pre, post, hsplit⟩ := List.append_of_mem hn
  refine ⟨?_, List.mem_map_of_mem hn⟩
  rw [hsplit, List.map_append]
  exact List.mem_append_left _ (hns.earlier pre n post hsplit hp)

/-- The scope is in the DAG. -/
theorem InScope.mem (hns : InOrder ns) {h : Bytes} (hs : InScope ns pivot radius h) :
    h ∈ ns.map IntentNode.hash := by
  obtain ⟨g, hnear, rfl | hpath | hpath⟩ := hs
  · obtain ⟨-, -, -, n, hn, rfl, -⟩ := hnear
    exact List.mem_map_of_mem hn
  · obtain ⟨c, hc, -⟩ := Relation.TransGen.head'_iff.1 hpath
    exact (hc.mem hns).1
  · obtain ⟨p, -, hp⟩ := Relation.TransGen.tail'_iff.1 hpath
    exact (hp.mem hns).2

theorem mem_parentsOf_hexEncode (hns : InOrder ns) {p c : Bytes} :
    hexEncode p ∈ (dagOf ns).parentsOf (hexEncode c) ↔ IsParent ns p c := by
  rw [show hexEncode p ∈ (dagOf ns).parentsOf (hexEncode c) ↔ _ from edge_parentsOf hns]
  exact ⟨fun ⟨q, heq, hq⟩ => hexEncode_injective heq ▸ hq, fun hp => ⟨p, rfl, hp⟩⟩

/-- The adjacency of the full set has its edges between the hashes of the scope. -/
theorem represents_adjacency (hns : InOrder ns) {full : List String}
    (hmem : ∀ id, id ∈ full ↔ ∃ h, hexEncode h = id ∧ InScope ns pivot radius h)
    {adj : String → List String} (hadj : ∀ x y, y ∈ adj x ↔ x ∈ full ∧ y ∈ full ∧
      (y ∈ (dagOf ns).parentsOf x ∨ x ∈ (dagOf ns).parentsOf y)) :
    Represents ns pivot radius full adj := by
  have hscope : ∀ g, hexEncode g ∈ full ↔ InScope ns pivot radius g := fun g =>
    (hmem _).trans ⟨fun ⟨g', heq, hg⟩ => hexEncode_injective heq ▸ hg, fun hg => ⟨g, rfl, hg⟩⟩
  refine ⟨hmem, fun a id => ?_⟩
  unfold Edge
  rw [hadj, hscope]
  constructor
  · rintro ⟨ha, hid, hp⟩
    obtain ⟨b, rfl, hb⟩ := (hmem id).1 hid
    rw [mem_parentsOf_hexEncode hns, mem_parentsOf_hexEncode hns] at hp
    exact ⟨b, rfl, ha, hb, hp.symm⟩
  · rintro ⟨b, rfl, ha, hb, hp⟩
    rw [hscope, mem_parentsOf_hexEncode hns, mem_parentsOf_hexEncode hns]
    exact ⟨ha, hb, hp.symm⟩

theorem pairwise_sortedIds {ids : List String} (h : ids.Nodup) :
    (sortedIds (order.order ids)).Pairwise fun a b => utf8 a ≤ utf8 b := by
  have hnodup : ((order.order ids).map utf8).Nodup :=
    ((order.perm ids).nodup_iff.2 h).map utf8_injective
  exact (OrdMap.pairwise_lt_insertionSort hnodup).imp le_of_lt

/-- With enough fuel, the components of the full set are found. -/
theorem clusterConnectedComponents_ends (hns : InOrder ns) {full : List String}
    (hnodup : full.Nodup)
    (hmem : ∀ id, id ∈ full ↔ ∃ h, hexEncode h = id ∧ InScope ns pivot radius h)
    (hfuel : 1 + ns.length * ns.length ≤ fuel) :
    ∃ cs adj, clusterConnectedComponents order (dagOf ns) fuel full = some cs ∧
      Represents ns pivot radius full adj ∧ Partitions adj full [] 0 cs := by
  have hlen : full.length ≤ ns.length := by
    have hsub : full ⊆ (dagOf ns).insertionOrder := by
      intro id hid
      obtain ⟨h, rfl, hs⟩ := (hmem id).1 hid
      obtain ⟨n, hn, rfl⟩ := List.mem_map.1 (hs.mem hns)
      exact (mem_ids rfl).2 ⟨n, hn, rfl⟩
    have := (hnodup.subperm hsub).length_le
    rwa [dagOf, List.length_map] at this
  have hadj : ∀ x y, y ∈ order.order (neighbors (adjacency order (dagOf ns) full) x) ↔
      x ∈ full ∧ y ∈ full ∧ (y ∈ (dagOf ns).parentsOf x ∨ x ∈ (dagOf ns).parentsOf y) := by
    intro x y
    rw [(order.perm _).mem_iff, mem_adjacency]
  obtain ⟨cs, hcs, hp⟩ := @clusterFrom_ends fuel
    (fun x => order.order (neighbors (adjacency order (dagOf ns) full) x)) full
    (fun x y hy => ((hadj x y).1 hy).2.1)
    (fun x y hy => by
      obtain ⟨hx, hy, hp⟩ := (hadj x y).1 hy
      exact (hadj y x).2 ⟨hy, hx, hp.symm⟩)
    (le_trans (Nat.add_le_add_left (sum_adjacency_le hlen) 1) hfuel)
    (sortedIds (order.order full)) [] (pairwise_sortedIds hnodup)
    (fun x hx => perm_sortedIds.mem_iff.1 hx) (by simp)
    (fun x hx _ => perm_sortedIds.mem_iff.2 hx) 0
  exact ⟨cs, _, hcs, represents_adjacency hns hmem hadj, hp⟩

/-- With fuel for the pairs of nodes the handler answers, and its clusters are the components of the
scope. -/
theorem intent_exact (order : SetOrder) (hns : InOrder ns) {payload : Payload}
    (hp : Carries payload pivot radius ns)
    (hfuel : ns.length * ns.length + ns.length + 1 ≤ fuel) :
    ∃ r, handleComputeIntent order fuel payload = some (.ok r) ∧
      ExactClusters ns pivot radius r := by
  obtain ⟨vs, hread, hvs⟩ := readIntent_of_carries hp
  obtain ⟨full, hfull, hnodup, hmem⟩ := @fullSet_ends ns pivot radius fuel order hns (by omega)
  obtain ⟨cs, adj, hcs, hrep, hpart⟩ :=
    @clusterConnectedComponents_ends order fuel _ _ _ hns _ hnodup hmem (by omega)
  refine ⟨⟨(neighborhood (dagOf ns) (hexEncode pivot) radius.toNat).coldStart,
    (neighborhood (dagOf ns) (hexEncode pivot) radius.toNat).nodeIds.length, full.length, cs.length,
    cs.map (Cluster.reported order)⟩, ?_, exactClusters_of_partitions hrep hpart rfl fun hn => ?_⟩
  · have hreports := @mapM_report order cs fun c hc => isHex_of_partitions hrep hpart hc
    simp only [handleComputeIntent, hread, reading, Except.mapError, foldlM_addNode hns hvs]
    rw [computeIntent]
    simp only [hfull, hcs, Option.bind_eq_bind, Option.bind_some, hreports]
    rfl
  · have hcold := neighborhood_coldStart hns hn (r := radius.toNat)
    rw [hcold]
    refine ⟨List.eq_nil_iff_forall_not_mem.2 fun id hid => ?_, rfl⟩
    obtain ⟨h, -, g, ⟨p, hpn, rfl, -⟩, -⟩ := (hmem id).1 hid
    exact hn (List.mem_map_of_mem hpn)

/-! ### A node and its parent -/

def parentAndChild : List IntentNode := [⟨[1], [], 0, "genesis"⟩, ⟨[2], [[1]], 3, "delta"⟩]

/-- The value of a node. -/
def IntentNode.value (n : IntentNode) : Value :=
  .map [("at_cycle", .uint n.atCycle), ("hash", .bytes n.hash), ("node_type", .string n.nodeType),
    ("parent_hashes", .array (n.parentHashes.map .bytes))]

theorem IntentNode.standsFor (n : IntentNode) : StandsFor n.value n :=
  ⟨_, rfl, rfl, rfl, rfl, rfl⟩

/-- The request of the substrate. -/
def intentRequest (pivot : Bytes) (radius : UInt64) (ns : List IntentNode) : Payload :=
  [("dag_nodes", .array (ns.map IntentNode.value)), ("pivot_hash", .bytes pivot),
    ("radius_cycles", .uint radius)]

theorem carries_intentRequest : Carries (intentRequest pivot radius ns) pivot radius ns where
  pivotHash := rfl
  radiusCycles := rfl
  dagNodes := by
    refine ⟨ns.map IntentNode.value, rfl, ?_⟩
    induction ns with
    | nil => exact .nil
    | cons n ns ih => exact .cons n.standsFor ih

theorem inOrder_parentAndChild : InOrder parentAndChild where
  distinct := by decide
  earlier pre n post h := by
    rcases pre with _ | ⟨m, _ | ⟨k, pre⟩⟩
    · cases h
      simp
    · cases h
      simp
    · have := congrArg List.length h
      simp [parentAndChild] at this

/-- The node of cycle 3 is not near the pivot, but its child. -/
theorem intent_exact_child : ∃ r,
    handleComputeIntent ⟨id, fun s => .refl s⟩ 7 (intentRequest [1] 2 parentAndChild) =
      some (.ok r) ∧ ExactClusters parentAndChild [1] 2 r :=
  intent_exact ⟨id, fun s => .refl s⟩ inOrder_parentAndChild carries_intentRequest (by decide)

end Myco.Trajectory
