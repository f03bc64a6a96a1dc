import Myco.Schema.DagPersist

/-!
# What the hashes protect

A node's hash covers its parents and its content and nothing else of it. Two files that load to
DAGs with a hash in common therefore agree on the parents and the content of that node and of all
its ancestors, but each file puts its own `node_type` and `created_at_cycle` there.

`tamper_evident_iff` says when two accepted files agree on the whole ancestry of every hash they
share. The entries that count are the first with their parents and content: the loader takes a
later one for a duplicate, and drops it.
-/

namespace Myco.Schema

open Myco.Lib Myco.Canonical

/-- What the hash of a stored node covers. -/
def Insertion.covered (c : Insertion) : List NodeHash × Bytes := (c.parentHashes, c.content)

/-- The entries of a file, none if it is not one of this format version. -/
def storedEntries (bytes : Bytes) : Loaded (List Insertion) := do
  match ← storedArray bytes with
  | none => .ok []
  | some nodes => nodes.mapM storedNode

/-- `c` is the first entry of the file with its parents and content. -/
def FirstStored (bytes : Bytes) (c : Insertion) : Prop :=
  ∃ cs, storedEntries bytes = .ok cs ∧ entryOf Insertion.covered cs c.covered = some c

/-- `k` is `h` or an ancestor of it. -/
def Dag.Ancestor (d : Dag) : NodeHash → NodeHash → Prop :=
  Relation.ReflTransGen fun ph h => ∃ n, d.get h = some n ∧ ph ∈ n.parentHashes

/-- No two of the nodes collide. -/
def CollisionFree (blake3 : Bytes → NodeHash) (ns : List DagNode) : Prop :=
  ∀ m ∈ ns, ∀ n ∈ ns,
    merkleHash blake3 m.parentHashes m.content = merkleHash blake3 n.parentHashes n.content →
    m.parentHashes = n.parentHashes ∧ m.content = n.content

/-- The DAGs agree on every hash they share, and on its ancestors. -/
def AgreeOnAncestry (d e : Dag) : Prop :=
  ∀ h, h ∈ d.nodes → h ∈ e.nodes → ∀ k, d.Ancestor k h → d.get k = e.get k

variable {blake3 : Bytes → NodeHash} {ns : List DagNode}

/-! ### What a file loads to -/

/-- The loop's state after some stored nodes: the first entry for each parents and content. -/
theorem load_entries {vs : List Value} {d : Dag}
    (h : vs.foldlM (loadNode blake3) Dag.new = .ok d) :
    ∃ cs ns, vs.mapM storedNode = .ok cs ∧ Recorded blake3 ns ∧ d = .ofNodes ns ∧
      ∀ n, n ∈ ns ↔ ∃ c, entryOf Insertion.covered cs c.covered = some c ∧ c.node blake3 = n := by
  induction vs using List.reverseRecOn generalizing d with
  | nil =>
    cases h
    exact ⟨[], [], rfl, recorded_nil, rfl, by simp [entryOf]⟩
  | append_singleton vs v ih =>
    rw [List.foldlM_append] at h
    obtain ⟨d', h1, h2⟩ := bind_eq_ok.1 h
    rw [List.foldlM_cons] at h2
    obtain ⟨d'', h3, h4⟩ := bind_eq_ok.1 h2
    cases h4
    obtain ⟨c, h5, h6⟩ := bind_eq_ok.1 h3
    obtain ⟨cs, ns, hcs, hr, rfl, hns⟩ := ih h1
    have hmap : (vs ++ [v]).mapM storedNode = .ok (cs ++ [c]) := by
      rw [List.mapM_append, hcs, List.mapM_cons, h5]
      rfl
    have hfirst : ∀ e : Insertion, entryOf Insertion.covered (cs ++ [c]) e.covered = some e ↔
        entryOf Insertion.covered cs e.covered = some e ∨
          entryOf Insertion.covered cs e.covered = none ∧ c = e := by
      intro e
      rw [entryOf_append]
      cases entryOf Insertion.covered cs e.covered with
      | some e' => simp
      | none =>
        by_cases hce : c = e
        · simp [hce, entryOf]
        · simp [hce, entryOf]
    rcases insertNode_cases hr c with ⟨e, -, he⟩ | ⟨n, hn, -, hp, hcont, he⟩ | ⟨hr', he⟩
    · simp only [he] at h6
      cases h6
    · simp only [he] at h6
      cases h6
      refine ⟨cs ++ [c], ns, hmap, hr, rfl, fun m => ?_⟩
      obtain ⟨e, hfe, hen⟩ := (hns n).1 hn
      have hcov : e.covered = c.covered := by
        rw [Insertion.covered, Insertion.covered, ← hp, ← hcont, ← hen]
        rfl
      rw [hns]
      refine exists_congr fun e' => and_congr_left fun _ => ?_
      rw [hfirst]
      refine ⟨.inl, fun hor => hor.resolve_right ?_⟩
      rintro ⟨hnone, rfl⟩
      rw [← hcov, hfe] at hnone
      cases hnone
    · simp only [he] at h6
      cases h6
      refine ⟨cs ++ [c], ns ++ [c.node blake3], hmap, hr', rfl, fun m => ?_⟩
      have hnone : entryOf Insertion.covered cs c.covered = none := by
        by_contra hne
        obtain ⟨e, hfe⟩ := Option.ne_none_iff_exists'.1 hne
        have hcov := key_of_entryOf hfe
        have hmem : e.node blake3 ∈ ns := (hns _).2 ⟨e, hcov.symm ▸ hfe, rfl⟩
        have hhash : (e.node blake3).hash = (c.node blake3).hash := by
          simp only [Insertion.covered, Prod.mk.injEq] at hcov
          simp only [Insertion.node, hcov.1, hcov.2]
        exact (recorded_append_node.1 hr').2.2.2 (hhash ▸ List.mem_map_of_mem hmem)
      rw [List.mem_append, List.mem_singleton, hns]
      constructor
      · rintro (⟨e, hfe, he⟩ | rfl)
        · exact ⟨e, (hfirst e).2 (.inl hfe), he⟩
        · exact ⟨c, (hfirst c).2 (.inr ⟨hnone, rfl⟩), rfl⟩
      · rintro ⟨e, hfe, he⟩
        rcases (hfirst e).1 hfe with hfe | ⟨-, rfl⟩
        · exact .inl ⟨e, hfe, he⟩
        · exact .inr he.symm

/-- The nodes of a loaded file are its first entries. -/
theorem loaded {bytes : Bytes} {d : Dag} (h : fromCanonicalBytes blake3 bytes = .ok (some d)) :
    ∃ ns, Recorded blake3 ns ∧ d = .ofNodes ns ∧
      ∀ n, n ∈ ns ↔ ∃ c, FirstStored bytes c ∧ c.node blake3 = n := by
  obtain ⟨stored, h1, h2⟩ := bind_eq_ok.1 h
  cases stored with
  | none => cases h2
  | some nodes =>
    obtain ⟨d', h3, h4⟩ := bind_eq_ok.1 h2
    cases h4
    obtain ⟨cs, ns, hcs, hr, hd, hns⟩ := load_entries h3
    have hst : storedEntries bytes = .ok cs := by
      rw [storedEntries, h1, ok_bind]
      exact hcs
    refine ⟨ns, hr, hd, fun n => (hns n).trans (exists_congr fun c => and_congr_left fun _ => ?_)⟩
    constructor
    · exact fun hf => ⟨cs, hst, hf⟩
    · rintro ⟨cs', hst', hf⟩
      cases Except.ok.inj (hst'.symm.trans hst)
      exact hf

/-! ### Two files -/

/-- Histories whose nodes are told apart by their hashes agree wherever they meet. -/
theorem agree_of_same_nodes {ms : List DagNode} (hn : Recorded blake3 ns)
    (hm : Recorded blake3 ms) (hsame : ∀ n ∈ ns, ∀ m ∈ ms, n.hash = m.hash → n = m) :
    AgreeOnAncestry (.ofNodes ns) (.ofNodes ms) := by
  have hshared : ∀ k, k ∈ ns.map DagNode.hash → k ∈ ms.map DagNode.hash →
      ∃ n ∈ ns, n ∈ ms ∧ n.hash = k := by
    intro k h1 h2
    obtain ⟨n, hn', rfl⟩ := List.mem_map.1 h1
    obtain ⟨m, hm', hk⟩ := List.mem_map.1 h2
    exact ⟨n, hn', hsame n hn' m hm' hk.symm ▸ hm', rfl⟩
  intro h h1 h2 k hk
  rw [Dag.mem_ofNodes hn.nodup] at h1
  rw [Dag.mem_ofNodes hm.nodup] at h2
  -- both histories have every ancestor of a hash that they share
  have hboth : k ∈ ns.map DagNode.hash ∧ k ∈ ms.map DagNode.hash := by
    induction hk using Relation.ReflTransGen.head_induction_on with
    | refl => exact ⟨h1, h2⟩
    | head hstep _ ih =>
      obtain ⟨n, hget, hph⟩ := hstep
      obtain ⟨hmem, hkey⟩ := hn.get_eq_some.1 hget
      obtain ⟨m, hm1, hm2, hkey'⟩ := hshared _ ih.1 ih.2
      cases eq_of_key_eq hn.nodup hmem hm1 (hkey.trans hkey'.symm)
      exact ⟨hn.parent_mem hmem hph, hm.parent_mem hm2 hph⟩
  obtain ⟨n, hn', hm', hk'⟩ := hshared k hboth.1 hboth.2
  rw [hn.get_eq_some.2 ⟨hn', hk'⟩, hm.get_eq_some.2 ⟨hm', hk'⟩]

/-- Two accepted files agree on the ancestry of every hash they share if and only if no two of
their first entries have the same parents and content and another type or cycle. -/
theorem tamper_evident_iff {b b' : Bytes} {d d' : Dag}
    (h : fromCanonicalBytes blake3 b = .ok (some d))
    (h' : fromCanonicalBytes blake3 b' = .ok (some d'))
    (hcf : CollisionFree blake3 (d.iterInInsertionOrder ++ d'.iterInInsertionOrder)) :
    AgreeOnAncestry d d' ↔
      ∀ c c', FirstStored b c → FirstStored b' c' →
        c.parentHashes = c'.parentHashes → c.content = c'.content →
        c.nodeType = c'.nodeType ∧ c.createdAtCycle = c'.createdAtCycle := by
  obtain ⟨ns, hn, rfl, hns⟩ := loaded h
  obtain ⟨ms, hm, rfl, hms⟩ := loaded h'
  rw [Dag.iter_ofNodes hn.nodup, Dag.iter_ofNodes hm.nodup] at hcf
  constructor
  · intro hagree c c' hc hc' hp hcont
    have h1 : c.node blake3 ∈ ns := (hns _).2 ⟨c, hc, rfl⟩
    have h2 : c'.node blake3 ∈ ms := (hms _).2 ⟨c', hc', rfl⟩
    have hhash : (c'.node blake3).hash = (c.node blake3).hash := by
      simp only [Insertion.node, hp, hcont]
    have hget := hagree (c.node blake3).hash ((Dag.mem_ofNodes hn.nodup).2 (List.mem_map_of_mem h1))
      ((Dag.mem_ofNodes hm.nodup).2 (hhash ▸ List.mem_map_of_mem h2)) _ .refl
    rw [hn.get_eq_some.2 ⟨h1, rfl⟩, hm.get_eq_some.2 ⟨h2, hhash⟩] at hget
    have heq : c.node blake3 = c'.node blake3 := Option.some.inj hget
    exact ⟨congrArg DagNode.nodeType heq, congrArg DagNode.createdAtCycle heq⟩
  · intro hlabels
    refine agree_of_same_nodes hn hm fun n hn' m hm' hhash => ?_
    have hcov := hcf n (List.mem_append_left _ hn') m (List.mem_append_right _ hm') (by
      rw [← hn.hashed n hn', ← hm.hashed m hm', hhash])
    obtain ⟨c, hc, rfl⟩ := (hns n).1 hn'
    obtain ⟨c', hc', rfl⟩ := (hms m).1 hm'
    obtain ⟨ht, hcy⟩ := hlabels c c' hc hc' hcov.1 hcov.2
    obtain ⟨hp, hcont⟩ := hcov
    simp only [Insertion.node] at hp hcont ⊢
    rw [hp, hcont, ht, hcy]

/-! ### A file that was edited -/

/-- A hash to evaluate on: the number of bytes, repeated. -/
def lengthHash (b : Bytes) : NodeHash := .replicate (UInt8.ofNat b.length)

/-- The file of the DAG that these insertions make. -/
def storedFile (cs : List Insertion) : Bytes := (insertAll lengthHash cs).toCanonicalBytes.getD []

theorem storedFile_loads {cs : List Insertion} (hmem : (storedFile cs).length ≤ isizeMax) :
    fromCanonicalBytes lengthHash (storedFile cs) = .ok (some (insertAll lengthHash cs)) := by
  obtain ⟨ns, hr, hd⟩ := insertAll_recorded lengthHash cs
  obtain ⟨bs, hbs⟩ := toCanonicalBytes_total hr
  rw [← hd] at hbs
  have hfile : storedFile cs = bs := by rw [storedFile, hbs, Option.getD_some]
  rw [hfile] at hmem ⊢
  exact load_insertAll hbs hmem

def oneNode (nodeType : String) : Dag := insertAll lengthHash [⟨[], nodeType, 0, []⟩]

/-- Someone edits the type of the only node: the file still loads, passes the check for
retroactive edits and has the same tip, and the DAGs disagree on that node. -/
theorem edited_node_type :
    (oneNode "genesis").tip = (oneNode "delta").tip ∧
    verifyAll lengthHash (oneNode "delta") = .ok () ∧
    ¬ ∀ b b' d d', fromCanonicalBytes lengthHash b = .ok (some d) →
        fromCanonicalBytes lengthHash b' = .ok (some d') →
        CollisionFree lengthHash (d.iterInInsertionOrder ++ d'.iterInInsertionOrder) →
        AgreeOnAncestry d d' := by
  obtain ⟨ns, hr, hd⟩ := insertAll_recorded lengthHash [⟨[], "delta", 0, []⟩]
  refine ⟨by decide, by rw [oneNode, hd]; exact hr.verifyAll, fun hall => ?_⟩
  have hcf : CollisionFree lengthHash
      ((oneNode "genesis").iterInInsertionOrder ++ (oneNode "delta").iterInInsertionOrder) := by
    unfold CollisionFree
    decide
  have hagree := hall _ _ _ _ (storedFile_loads (by decide +kernel))
    (storedFile_loads (by decide +kernel)) hcf (merkleHash lengthHash [] [])
    (by decide) (by decide) _ .refl
  have hne : (oneNode "genesis").get (merkleHash lengthHash [] []) ≠
      (oneNode "delta").get (merkleHash lengthHash [] []) := by decide
  exact hne hagree

theorem FirstStored.mem {b : Bytes} {cs : List Insertion} {c : Insertion} (h : FirstStored b c)
    (hcs : (storedEntries b).toOption = some cs) : c ∈ cs := by
  obtain ⟨cs', hstored, hfirst⟩ := h
  rw [hstored] at hcs
  cases hcs
  exact List.mem_of_find?_eq_some hfirst

def genesisEntry : Insertion := ⟨[], "genesis", 0, []⟩

/-- The genesis node, and a child of it. -/
def withChild : List Insertion := [genesisEntry, ⟨[merkleHash lengthHash [] []], "delta", 1, [7]⟩]

/-- A file agrees with one that goes on from it. -/
theorem tamper_evident_extended :
    AgreeOnAncestry (insertAll lengthHash [genesisEntry]) (insertAll lengthHash withChild) := by
  have hcf : CollisionFree lengthHash ((insertAll lengthHash [genesisEntry]).iterInInsertionOrder ++
      (insertAll lengthHash withChild).iterInInsertionOrder) := by
    unfold CollisionFree
    decide +kernel
  have hentries : ∀ c ∈ [genesisEntry], ∀ c' ∈ withChild, c.parentHashes = c'.parentHashes →
      c.content = c'.content → c.nodeType = c'.nodeType ∧ c.createdAtCycle = c'.createdAtCycle := by
    decide
  refine (tamper_evident_iff (storedFile_loads (by decide +kernel))
    (storedFile_loads (by decide +kernel)) hcf).2 fun c c' hc hc' => ?_
  exact hentries c (hc.mem (by decide +kernel)) c' (hc'.mem (by decide +kernel))

end Myco.Schema
