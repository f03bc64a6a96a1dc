import Myco.Prune.Scan

/-!
# One tombstone a part

The rules consult what was dead before the scan, and two of them do not look at types. So a scan
buries no part twice as long as the rules keep apart (`RulesApart`): `Progress` is what holds
between two rules, `one_tombstone_each` what holds of a run of scans and insertions. An orphaned
axis registration is buried twice by one scan (`orphaned_axis_buried_twice`).
-/

namespace Myco.Prune

open Myco.Lib Myco.Canonical Myco.Schema Myco.Substrate

variable {env : Env} {s m s' : ServerState env} {t : UInt64} {ps : List NodeHash} {p : NodeHash}

/-- Each part has one tombstone at most, and it hangs from the part. -/
structure OneTombstoneEach (ns : List DagNode) : Prop where
  nodup : (ns.filterMap killedPartHash).Nodup
  parent : ∀ n ∈ ns, ∀ p, killedPartHash n = some p → p ∈ n.parentHashes

theorem oneTombstoneEach_of_none {ns : List DagNode} (h : ns.filterMap killedPartHash = []) :
    OneTombstoneEach ns where
  nodup := h ▸ List.nodup_nil
  parent n hn p hp := by
    have hmem := List.mem_filterMap.2 ⟨n, hn, hp⟩
    rw [h] at hmem
    cases hmem

/-- What the rules before the graph walk select. -/
def selectedFirst (dag : Dag) (t : UInt64) : List NodeHash :=
  partsOf ([orphanRule, staleAxisRule, failedEvolutionRule, duplicateRule].flatMap fun rule =>
    rule.detect dag (.forDag dag) t)

/-- No orphan is selected by its type too, and a superseded plate is reached by the time that the
graph is walked. -/
structure RulesApart (dag : Dag) (t : UInt64) : Prop where
  orphans : ∀ n ∈ dag.iterInInsertionOrder, Orphaned dag dag.tip t n →
    ¬ StaleAxis dag t n ∧ ¬ Falsified dag t n ∧ ¬ Duplicated dag t n ∧ ¬ Superseded dag t n
  plates : ∀ n ∈ dag.iterInInsertionOrder, isPruneEligible n.nodeType n.hash (.forDag dag) →
    Superseded dag t n → n.hash ∈ referenced dag →
    ∃ r ∈ liveRoots dag (saturatingSub t orphanGraceCycles) ++ selectedFirst dag t,
      Reaches dag r n.hash

/-! ### Each rule selects a part once -/

section

variable {dag : Dag} {ctx : PruneScanCtx}

theorem nodup_partsOf_filterMap {f : DagNode → Option PruneCandidate} {ns : List DagNode}
    (hd : (ns.map DagNode.hash).Nodup) (hf : ∀ n c, f n = some c → c.partHash = n.hash) :
    (partsOf (ns.filterMap f)).Nodup := by
  have hsub : ∀ ns : List DagNode, (partsOf (ns.filterMap f)).Sublist (ns.map DagNode.hash) := by
    intro ns
    induction ns with
    | nil => exact List.Sublist.refl _
    | cons n ns ih =>
      cases hn : f n with
      | none =>
        rw [List.filterMap_cons_none hn]
        exact ih.cons _
      | some c =>
        rw [List.filterMap_cons_some hn]
        show (c.partHash :: partsOf (ns.filterMap f)).Sublist (n.hash :: ns.map DagNode.hash)
        rw [hf n c hn]
        exact ih.cons_cons _
  exact hd.sublist (hsub ns)

variable (hd : (dag.iterInInsertionOrder.map DagNode.hash).Nodup)

include hd

theorem nodup_detectOrphan : (partsOf (detectOrphanPastGrace dag ctx t)).Nodup := by
  unfold detectOrphanPastGrace
  split
  · exact List.nodup_nil
  · refine nodup_partsOf_filterMap hd fun n c hc => ?_
    split at hc
    · cases hc
      rfl
    · cases hc

theorem nodup_detectStaleAxis : (partsOf (detectStaleAxisPastWindow dag ctx t)).Nodup := by
  unfold detectStaleAxisPastWindow
  split
  · exact List.nodup_nil
  · refine nodup_partsOf_filterMap hd fun n c hc => ?_
    obtain ⟨name, -, hc⟩ := Option.bind_eq_some_iff.1 hc
    dsimp only at hc
    split at hc
    · cases hc
      rfl
    · cases hc

theorem nodup_detectFailedEvolution :
    (partsOf (detectSupersededByFailedEvolution dag ctx t)).Nodup := by
  unfold detectSupersededByFailedEvolution
  split
  · exact List.nodup_nil
  · refine nodup_partsOf_filterMap hd fun n c hc => ?_
    obtain ⟨op, -, hc⟩ := Option.bind_eq_some_iff.1 hc
    obtain ⟨fail, -, hc⟩ := Option.bind_eq_some_iff.1 hc
    dsimp only at hc
    split at hc
    · cases hc
      rfl
    · cases hc

theorem nodup_detectUnreachable :
    (partsOf (detectUnreachableFromLiveRoots dag ctx t)).Nodup := by
  unfold detectUnreachableFromLiveRoots
  split
  · exact List.nodup_nil
  · refine nodup_partsOf_filterMap hd fun n c hc => ?_
    split at hc
    · cases hc
      rfl
    · cases hc

theorem nodup_detectSupersededPlate :
    (partsOf (detectForgedUnderstandingSuperseded dag ctx t)).Nodup := by
  unfold detectForgedUnderstandingSuperseded
  split
  · exact List.nodup_nil
  · refine nodup_partsOf_filterMap hd fun n c hc => ?_
    split at hc
    · obtain ⟨later, -, hc⟩ := Option.bind_eq_some_iff.1 hc
      dsimp only at hc
      split at hc
      · cases hc
        rfl
      · cases hc
    · cases hc

/-- Groups with different keys begin with different nodes. -/
theorem nodup_detectDuplicate :
    (partsOf (detectDuplicateContentSubsumed dag ctx t)).Nodup := by
  unfold detectDuplicateContentSubsumed
  split
  · exact List.nodup_nil
  · have hfirst : ((duplicateGroups dag).map DuplicateGroup.firstHash).Nodup := by
      refine nodup_map_indexValues fun k k' g g' hg hg' he => ?_
      obtain ⟨e, ⟨xs, ys, hes, -, -⟩, hk, ⟨h1, -, -⟩, -⟩ := begins_of_buildIndex hg
      obtain ⟨e', ⟨xs', ys', hes', -, -⟩, hk', ⟨h1', -, -⟩, -⟩ := begins_of_buildIndex hg'
      have hmem : ∀ e xs ys, dag.iterInInsertionOrder.zipIdx = xs ++ e :: ys →
          e.1 ∈ dag.iterInInsertionOrder := by
        intro e xs ys hes
        have hin : e ∈ dag.iterInInsertionOrder.zipIdx := by simp [hes]
        rw [← List.zipIdx_map_fst (l := dag.iterInInsertionOrder)]
        exact List.mem_map_of_mem hin
      have hsame : e.1 = e'.1 := eq_of_key_eq hd (hmem e xs ys hes) (hmem e' xs' ys' hes')
        (h1.symm.trans (he.trans h1'))
      rw [duplicateKey_eq_some] at hk hk'
      rw [← hk.2, ← hk'.2, hsame]
    dsimp only
    rw [partsOf, List.map_map]
    have hperm := (List.perm_insertionSort (fun g h : DuplicateGroup => g.firstIndex ≤ h.firstIndex)
      ((duplicateGroups dag).filter fun g => g.survivorHash.isSome ∧
        g.firstCycle ≤ saturatingSub t redundantGraceCycles ∧
        isPruneEligible g.firstType g.firstHash ctx)).map DuplicateGroup.firstHash
    exact hperm.nodup_iff.2 (hfirst.sublist (List.filter_sublist.map _))

end

/-! ### Between two rules -/

/-- The scan that began at `s` has come to `m` and has buried `ps`, each part once. -/
structure Progress (s : ServerState env) (ps : List NodeHash) (m : ServerState env) : Prop where
  path : Path Buries s.nodes ps m.nodes
  nodup : ps.Nodup
  fresh : ∀ p ∈ ps, p ∉ s.nodes.filterMap killedPartHash

/-- In the end each part still has one tombstone. -/
theorem Progress.oneTombstoneEach (h : Progress s ps m) (hs : OneTombstoneEach s.nodes) :
    OneTombstoneEach m.nodes := by
  obtain ⟨ts, hm, -, rfl, hpar, -⟩ := tombstones_of_path h.path
  rw [hm]
  constructor
  · rw [List.filterMap_append, List.nodup_append]
    exact ⟨hs.nodup, h.nodup, fun a ha b hb he => h.fresh b hb (he ▸ ha)⟩
  · exact List.forall_mem_append.2 ⟨hs.parent, hpar⟩

/-- One more rule, if it selects each part once and none that is buried. -/
theorem Progress.rule {ctx : PruneScanCtx} {rule : PruneRule} {rules : List PruneRule}
    {r : Except SubstrateError (List (List NodeHash))} (h : Progress s ps m)
    (hnd : (partsOf (rule.detect m.ledger.dag ctx t)).Nodup)
    (hnew : ∀ p ∈ partsOf (rule.detect m.ledger.dag ctx t),
      p ∉ s.nodes.filterMap killedPartHash ∧ p ∉ ps)
    (he : ((rule :: rules).mapM (runRule ctx t)).exec m = some (r, s')) :
    (∃ ps', Progress s ps' s') ∨
    ∃ m' r', Progress s (ps ++ partsOf (rule.detect m.ledger.dag ctx t)) m' ∧
      (rules.mapM (runRule ctx t)).exec m' = some (r', s') := by
  have hsome : ∀ qs, qs <+: partsOf (rule.detect m.ledger.dag ctx t) → ∀ m',
      Path Buries m.nodes qs m'.nodes → Progress s (ps ++ qs) m' := by
    intro qs hqs m' hp
    refine ⟨h.path.append hp, ?_, ?_⟩
    · rw [List.nodup_append]
      exact ⟨h.nodup, hnd.sublist hqs.sublist, fun a ha b hb he =>
        (hnew b (hqs.subset hb)).2 (he ▸ ha)⟩
    · exact List.forall_mem_append.2 ⟨h.fresh, fun p hp => (hnew p (hqs.subset hp)).1⟩
  rw [List.mapM_cons] at he
  rcases Prog.exec_bind_eq_some.1 he with ⟨e, h1, -⟩ | ⟨hs, m', h1, h2⟩
  · rcases runRule_follows h1 with ⟨hs, hr, -⟩ | ⟨e', qs, -, hqs, hp⟩
    · cases hr
    · exact .inl ⟨_, hsome qs hqs s' hp⟩
  · rcases runRule_follows h1 with ⟨hs', -, hp⟩ | ⟨e', qs, hr, -⟩
    · rcases Prog.exec_bind_eq_some.1 h2 with ⟨e, h3, -⟩ | ⟨hss, m'', h3, h4⟩
      · exact .inr ⟨m', _, hsome _ List.prefix_rfl m' hp, h3⟩
      · cases h4
        exact .inr ⟨m', _, hsome _ List.prefix_rfl m' hp, h3⟩
    · cases hr

/-- A steady rule selects in the midst of a scan what it selects at its beginning. -/
theorem Progress.steady {ctx : PruneScanCtx} {rule : PruneRule} (h : Progress s ps m)
    (hrule : Steady rule) : rule.detect m.ledger.dag ctx t = rule.detect s.ledger.dag ctx t := by
  obtain ⟨ts, hm, hts, -⟩ := tombstones_of_path h.path
  exact hrule _ _ ts ctx t hm hts

theorem Progress.steadyRule {ctx : PruneScanCtx} {rule : PruneRule} {rules : List PruneRule}
    {r : Except SubstrateError (List (List NodeHash))} (h : Progress s ps m)
    (hrule : Steady rule) (hnd : (partsOf (rule.detect s.ledger.dag ctx t)).Nodup)
    (hnew : ∀ p ∈ partsOf (rule.detect s.ledger.dag ctx t),
      p ∉ s.nodes.filterMap killedPartHash ∧ p ∉ ps)
    (he : ((rule :: rules).mapM (runRule ctx t)).exec m = some (r, s')) :
    (∃ ps', Progress s ps' s') ∨
    ∃ m' r', Progress s (ps ++ partsOf (rule.detect s.ledger.dag ctx t)) m' ∧
      (rules.mapM (runRule ctx t)).exec m' = some (r', s') := by
  rw [← h.steady (m := m) hrule] at hnd hnew ⊢
  exact h.rule hnd hnew he

/-! ### Whose parts they are -/

/-- `p` is the hash of a node that `P` holds of. -/
def PartOf (ns : List DagNode) (P : DagNode → Prop) (p : NodeHash) : Prop :=
  ∃ n ∈ ns, n.hash = p ∧ P n

theorem PartOf.disjoint {l : Ledger env.blake3} {P Q : DagNode → Prop} (hp : PartOf l.nodes P p)
    (hPQ : ∀ n ∈ l.nodes, P n → ¬ Q n) : ¬ PartOf l.nodes Q p := by
  rintro ⟨n', hn', hk', hq⟩
  obtain ⟨n, hn, hk, hp⟩ := hp
  obtain rfl := eq_of_key_eq l.recorded.nodup hn' hn (hk'.trans hk.symm)
  exact hPQ _ hn hp hq

/-- What a rule finds, past the check that the rules share. -/
def Finds (dag : Dag) (P : DagNode → Prop) (n : DagNode) : Prop :=
  isPruneEligible n.nodeType n.hash (.forDag dag) ∧ P n

theorem Finds.fresh {P : DagNode → Prop} (h : PartOf s.nodes (Finds s.ledger.dag P) p) :
    p ∉ s.nodes.filterMap killedPartHash := by
  obtain ⟨n, -, rfl, hel, -⟩ := h
  exact hel.2.2

variable {dag : Dag}

theorem part_orphan (h : p ∈ partsOf (orphanRule.detect dag (.forDag dag) t)) :
    PartOf dag.iterInInsertionOrder (Orphaned dag dag.tip t) p := by
  obtain ⟨c, hc, rfl⟩ := List.mem_map.1 h
  obtain ⟨n, hn, hof, ho, -⟩ := mem_detectOrphan hc
  exact ⟨n, hn, hof.1.symm, ho⟩

theorem part_staleAxis (h : p ∈ partsOf (staleAxisRule.detect dag (.forDag dag) t)) :
    PartOf dag.iterInInsertionOrder (Finds dag (StaleAxis dag t)) p := by
  obtain ⟨c, hc, rfl⟩ := List.mem_map.1 h
  obtain ⟨n, hn, hof, hs, hel, -⟩ := mem_detectStaleAxis hc
  exact ⟨n, hn, hof.1.symm, hel, hs⟩

theorem part_failedEvolution (h : p ∈ partsOf (failedEvolutionRule.detect dag (.forDag dag) t)) :
    PartOf dag.iterInInsertionOrder (Finds dag (Falsified dag t)) p := by
  obtain ⟨c, hc, rfl⟩ := List.mem_map.1 h
  obtain ⟨n, hn, hof, hel, hf, -⟩ := mem_detectFailedEvolution hc
  exact ⟨n, hn, hof.1.symm, hel, hf⟩

theorem part_duplicate (h : p ∈ partsOf (duplicateRule.detect dag (.forDag dag) t)) :
    PartOf dag.iterInInsertionOrder (Finds dag (Duplicated dag t)) p := by
  obtain ⟨c, hc, rfl⟩ := List.mem_map.1 h
  obtain ⟨n, hn, hof, hel, hd, -⟩ := mem_detectDuplicate hc
  exact ⟨n, hn, hof.1.symm, hel, hd⟩

theorem part_supersededPlate
    (h : p ∈ partsOf (supersededPlateRule.detect dag (.forDag dag) t)) :
    PartOf dag.iterInInsertionOrder (Finds dag (Superseded dag t)) p := by
  obtain ⟨c, hc, rfl⟩ := List.mem_map.1 h
  obtain ⟨n, hn, hof, hel, hs, -⟩ := mem_detectSupersededPlate hc
  exact ⟨n, hn, hof.1.symm, hel, hs⟩

/-- What no node names as a parent has not been buried. -/
theorem Orphaned.fresh (hs : OneTombstoneEach s.nodes)
    (h : PartOf s.nodes (Orphaned s.ledger.dag s.ledger.dag.tip t) p) :
    p ∉ s.nodes.filterMap killedPartHash := by
  obtain ⟨n, -, rfl, -, -, -, -, hn⟩ := h
  intro hk
  obtain ⟨m, hm, hk⟩ := List.mem_filterMap.1 hk
  exact hn (List.mem_flatMap.2 ⟨m, hm, hs.parent m hm _ hk⟩)

/-- The graph walk selects neither what the scan has buried nor, where the rules are apart, a
superseded plate. -/
theorem part_unreachable (h : Progress s ps m) (hfirst : selectedFirst s.ledger.dag t ⊆ ps)
    (ha : RulesApart s.ledger.dag t)
    (hp : p ∈ partsOf (unreachableRule.detect m.ledger.dag (.forDag s.ledger.dag) t)) :
    p ∉ s.nodes.filterMap killedPartHash ∧ p ∉ ps ∧
      ¬ PartOf s.nodes (Finds s.ledger.dag (Superseded s.ledger.dag t)) p := by
  obtain ⟨c, hc, rfl⟩ := List.mem_map.1 hp
  obtain ⟨n, hn, hof, hel, ht, hold, ⟨href, hdet⟩, -⟩ := mem_detectUnreachable hc
  rw [hof.1]
  obtain ⟨ts, hm, hts, -, -, hrefs⟩ := tombstones_of_path h.path
  have hsub : s.ledger.nodes ⊆ m.ledger.nodes := by
    show s.nodes ⊆ m.nodes
    rw [hm]
    exact List.subset_append_left _ _
  -- the walk begins at the tip, which reaches what has been buried and the tip from before
  have hunreached : ∀ q, q ∈ ps ∨ (s.nodes.map DagNode.hash).getLast? = some q →
      ¬ Reaches m.ledger.dag q n.hash := by
    intro q hq hreach
    obtain ⟨r, hr, hrq⟩ := reaches_of_path h.path hq
    refine hdet r (List.mem_append_left _ ?_) (hrq.trans hreach)
    rw [Option.mem_toList]
    exact hr
  have hnot : n.hash ∉ ps := fun hq => hunreached _ (.inl hq) .refl
  refine ⟨hel.2.2, hnot, ?_⟩
  rintro ⟨n', hn', hk, hel', hsup⟩
  obtain rfl := eq_of_key_eq m.ledger.recorded.nodup (hsub hn') hn hk
  have href' : n'.hash ∈ referenced s.ledger.dag := by
    obtain ⟨q, hq, hpar⟩ := List.mem_flatMap.1 href
    rw [show m.ledger.dag.iterInInsertionOrder = s.nodes ++ ts from hm, List.mem_append] at hq
    rcases hq with hq | hq
    · exact List.mem_flatMap.2 ⟨q, hq, hpar⟩
    · rcases hrefs q hq _ hpar with hq | hq | hq
      · exact absurd hq hnot
      · exact absurd .refl (hunreached _ (.inr hq))
      · obtain ⟨b, hb, hbk⟩ := List.mem_map.1 hq
        have hbm : b ∈ m.ledger.nodes := by
          show b ∈ m.nodes
          rw [hm]
          exact List.mem_append_right _ hb
        obtain rfl := eq_of_key_eq m.ledger.recorded.nodup hbm hn hbk
        exact absurd hsup.1 (not_startsWith (hts _ hb) (by decide))
  obtain ⟨r, hr, hreach⟩ := ha.plates n' hn' hel' hsup href'
  have hreach := hreach.mono hsub
  rcases List.mem_append.1 hr with hr | hr
  · rcases List.mem_append.1 hr with hr | hr
    · refine hunreached r (.inr ?_) hreach
      rw [Option.mem_toList] at hr
      exact (Ledger.tip_eq s.ledger).symm.trans hr
    · refine hdet r (List.mem_append_right _ ?_) hreach
      obtain ⟨q, hq, hrq⟩ := List.mem_flatMap.1 hr
      rw [List.mem_filter] at hq
      exact List.mem_flatMap.2 ⟨q, List.mem_filter.2 ⟨hsub hq.1, hq.2⟩, hrq⟩
  · exact hunreached r (.inl (hfirst hr)) hreach

/-! ### A whole scan -/

theorem exec_runPruneScan {r : Except SubstrateError PruneScanReport}
    (h : (runPruneScan t).exec s = some (r, s')) :
    ∃ r', (seedRules.mapM (runRule (.forDag s.ledger.dag) t)).exec s = some (r', s') := by
  rw [runPruneScan, Prog.exec_get_bind] at h
  rcases Prog.exec_bind_eq_some.1 h with ⟨e, h1, -⟩ | ⟨hs, m, h1, h2⟩
  · exact ⟨_, h1⟩
  · cases h2
    exact ⟨_, h1⟩

theorem runPruneScan_progress {r : Except SubstrateError PruneScanReport}
    (hs : OneTombstoneEach s.nodes) (ha : RulesApart s.ledger.dag t)
    (h : (runPruneScan t).exec s = some (r, s')) : ∃ ps, Progress s ps s' := by
  obtain ⟨r', h⟩ := exec_runPruneScan h
  have hd := s.ledger.recorded.nodup
  have horphan := fun n hn => ha.orphans n hn
  have h0 : Progress s [] s := ⟨.nil, List.nodup_nil, by simp⟩
  -- orphans
  rcases h0.rule (nodup_detectOrphan hd) (fun p hp => ⟨Orphaned.fresh hs (part_orphan hp), by simp⟩) h
    with hend | ⟨m1, r1, h1, h⟩
  · exact hend
  -- stale axes
  rcases h1.steadyRule steady_staleAxisRule (nodup_detectStaleAxis hd) (fun p hp => by
    refine ⟨Finds.fresh (part_staleAxis hp), fun hq => ?_⟩
    exact (part_orphan hq).disjoint (fun n hn ho hf => (horphan n hn ho).1 hf.2)
      (part_staleAxis hp)) h with hend | ⟨m2, r2, h2, h⟩
  · exact hend
  -- falsified evolutions
  rcases h2.steadyRule steady_failedEvolutionRule (nodup_detectFailedEvolution hd) (fun p hp => by
    refine ⟨Finds.fresh (part_failedEvolution hp), fun hq => ?_⟩
    rcases List.mem_append.1 hq with hq | hq
    · exact (part_orphan hq).disjoint (fun n hn ho hf => (horphan n hn ho).2.1 hf.2)
        (part_failedEvolution hp)
    · exact (part_staleAxis hq).disjoint (fun n _ ha hf => ha.2.apart.1 hf.2)
        (part_failedEvolution hp)) h with hend | ⟨m3, r3, h3, h⟩
  · exact hend
  -- duplicates
  rcases h3.steadyRule steady_duplicateRule (nodup_detectDuplicate hd) (fun p hp => by
    refine ⟨Finds.fresh (part_duplicate hp), fun hq => ?_⟩
    rcases List.mem_append.1 hq with hq | hq
    · rcases List.mem_append.1 hq with hq | hq
      · exact (part_orphan hq).disjoint (fun n hn ho hf => (horphan n hn ho).2.2.1 hf.2)
          (part_duplicate hp)
      · exact (part_staleAxis hq).disjoint (fun n _ ha hf => ha.2.apart.2.1 hf.2)
          (part_duplicate hp)
    · exact (part_failedEvolution hq).disjoint (fun n _ ha hf => ha.2.apart.1 hf.2)
        (part_duplicate hp)) h with hend | ⟨m4, r4, h4, h⟩
  · exact hend
  -- detached nodes
  have hfirst : selectedFirst s.ledger.dag t ⊆
      [] ++ partsOf (orphanRule.detect s.ledger.dag (.forDag s.ledger.dag) t) ++
        partsOf (staleAxisRule.detect s.ledger.dag (.forDag s.ledger.dag) t) ++
        partsOf (failedEvolutionRule.detect s.ledger.dag (.forDag s.ledger.dag) t) ++
        partsOf (duplicateRule.detect s.ledger.dag (.forDag s.ledger.dag) t) := by
    simp [selectedFirst, partsOf]
  have hdet := fun p hp => part_unreachable (p := p) h4 hfirst ha hp
  rcases h4.rule (nodup_detectUnreachable m4.ledger.recorded.nodup)
    (fun p hp => ⟨(hdet p hp).1, (hdet p hp).2.1⟩) h with hend | ⟨m5, r5, h5, h⟩
  · exact hend
  -- superseded plates
  rcases h5.steadyRule steady_supersededPlateRule (nodup_detectSupersededPlate hd) (fun p hp => by
    refine ⟨Finds.fresh (part_supersededPlate hp), fun hq => ?_⟩
    simp only [List.mem_append] at hq
    rcases hq with ((((hq | hq) | hq) | hq) | hq) | hq
    · cases hq
    · exact (part_orphan hq).disjoint (fun n hn ho hf => (horphan n hn ho).2.2.2 hf.2)
        (part_supersededPlate hp)
    · exact (part_staleAxis hq).disjoint (fun n _ ha hf => ha.2.apart.2.2 hf.2)
        (part_supersededPlate hp)
    · exact (part_failedEvolution hq).disjoint (fun n _ ha hf => ha.2.apart.2 hf.2)
        (part_supersededPlate hp)
    · exact (part_duplicate hq).disjoint (fun n _ ha hf => ha.2.apart hf.2)
        (part_supersededPlate hp)
    · exact (hdet p hq).2.2 (part_supersededPlate hp)) h with hend | ⟨m6, r6, h6, h⟩
  · exact hend
  cases h
  exact ⟨_, h6⟩

/-! ### Runs of scans and insertions -/

inductive PruneOp where
  /-- an `insert_node` by anything but a scan -/
  | insert (what : String) (c : Insertion)
  | scan (currentCycle : UInt64)

/-- Nothing but a scan writes tombstones. -/
def PruneOp.Step (s : ServerState env) : PruneOp → ServerState env → Prop
  | .insert what c, s' => ¬ startsWith internalMortalityEventPrefix c.nodeType ∧
      ∃ r, (insertNode what c).exec s = some (r, s')
  | .scan t, s' => ∃ r, (runPruneScan t).exec s = some (r, s')

/-- A step at which a scan finds the rules apart. -/
def PruneOp.ApartStep (s : ServerState env) (op : PruneOp) (s' : ServerState env) : Prop :=
  op.Step s s' ∧ ∀ t, op = .scan t → RulesApart s.ledger.dag t

theorem exec_insertNode_nodes {what : String} {c : Insertion} {r : Except SubstrateError NodeHash}
    (h : (insertNode what c).exec s = some (r, s')) :
    s'.nodes = s.nodes ∨ s'.nodes = s.nodes ++ [c.node env.blake3] := by
  rw [exec_insertNode] at h
  split at h
  · cases h
    rcases s.ledger.push_cases c with ⟨-, -, -, hn⟩ | ⟨-, -, -, -, -, -, hn⟩ | ⟨-, hn⟩
    · exact .inl hn
    · exact .inl hn
    · exact .inr hn
  · cases h

theorem OneTombstoneEach.step {op : PruneOp} (hs : OneTombstoneEach s.nodes)
    (h : op.ApartStep s s') : OneTombstoneEach s'.nodes := by
  obtain ⟨hstep, ha⟩ := h
  cases op with
  | insert what c =>
    obtain ⟨hc, r, he⟩ := hstep
    rcases exec_insertNode_nodes he with hn | hn
    · rw [hn]
      exact hs
    · have hnone : killedPartHash (c.node env.blake3) = none := if_neg hc
      rw [hn]
      constructor
      · rw [filterMap_append_of_none (by simpa using hnone)]
        exact hs.nodup
      · refine List.forall_mem_append.2 ⟨hs.parent, ?_⟩
        simp [hnone]
  | scan t =>
    obtain ⟨r, he⟩ := hstep
    obtain ⟨ps, hp⟩ := runPruneScan_progress hs (ha t rfl) he
    exact hp.oneTombstoneEach hs

/-- However scans and insertions follow each other, as long as each scan finds the rules apart, no
part is buried twice. -/
theorem one_tombstone_each {ops : List PruneOp} (hs : OneTombstoneEach s.nodes)
    (h : Path PruneOp.ApartStep s ops s') : (s'.nodes.filterMap killedPartHash).Nodup := by
  suffices OneTombstoneEach s'.nodes from this.nodup
  induction h with
  | nil => exact hs
  | cons h1 _ ih => exact ih (hs.step h1)

def rootCall : Insertion := ⟨[], "genesis_event:0.1", 0, []⟩

def noteCall : Insertion := ⟨[(rootCall.node lengthHash).hash], "note:first", 0, [1]⟩

def axisCall : Insertion := ⟨[(rootCall.node lengthHash).hash], "axis_registered:joy", 0, [1]⟩

def nextCall : Insertion := ⟨[(rootCall.node lengthHash).hash], "cycle_advanced", 1, [1, 2]⟩

/-- An orphaned note is buried once. -/
theorem one_tombstone_each_note : ∃ s' : ServerState smallEnv,
    Path PruneOp.ApartStep (stateOf smallEnv [rootCall, noteCall, nextCall]) [.scan 2100] s' ∧
      s'.nodes.length = 4 ∧ (s'.nodes.filterMap killedPartHash).Nodup := by
  have hsome : (((runPruneScan 2100).exec (stateOf smallEnv [rootCall, noteCall, nextCall])).map
      fun p => p.2.nodes.length) = some 4 := by decide +kernel
  obtain ⟨⟨r, s'⟩, he, hlen⟩ := Option.map_eq_some_iff.1 hsome
  have horphans : ∀ n ∈ (insertAll lengthHash [rootCall, noteCall, nextCall]).iterInInsertionOrder,
      Orphaned (insertAll lengthHash [rootCall, noteCall, nextCall])
        (insertAll lengthHash [rootCall, noteCall, nextCall]).tip 2100 n →
      ¬ startsWith axisRegisteredPrefix n.nodeType ∧
      ¬ startsWith evolutionSucceededPrefix n.nodeType ∧ ¬ redundantInScope n.nodeType := by
    decide
  have hplates : ∀ n ∈ (insertAll lengthHash [rootCall, noteCall, nextCall]).iterInInsertionOrder,
      ¬ startsWith forgedUnderstandingPrefix n.nodeType := by decide
  have hnone : (stateOf smallEnv [rootCall, noteCall, nextCall]).nodes.filterMap killedPartHash = [] := by
    decide
  have hpath : Path PruneOp.ApartStep (stateOf smallEnv [rootCall, noteCall, nextCall])
      [.scan 2100] s' := by
    refine .cons ⟨⟨r, he⟩, fun t ht => ?_⟩ .nil
    cases ht
    refine ⟨fun n hn ho => ?_, fun n hn _ hs => absurd hs.1 (hplates n hn)⟩
    obtain ⟨h1, h2, h3⟩ := horphans n hn ho
    exact ⟨fun h => h1 h.type, fun h => h2 h.type, fun h => h3 h.type, fun h => hplates n hn h.1⟩
  exact ⟨s', hpath, hlen, one_tombstone_each (oneTombstoneEach_of_none hnone) hpath⟩

/-- The cycle of a scan. -/
def PruneOp.cycle? : PruneOp → Option UInt64
  | .insert _ _ => none
  | .scan t => some t

/-- An orphaned axis registration, untouched for the window: both rules bury it, in one scan. -/
theorem orphaned_axis_buried_twice :
    ¬ ∀ (env : Env) (s s' : ServerState env) (ops : List PruneOp), OneTombstoneEach s.nodes →
      (ops.filterMap PruneOp.cycle?).Pairwise (· < ·) → Path PruneOp.Step s ops s' →
      (s'.nodes.filterMap killedPartHash).Nodup := by
  intro h
  have hsome : (((runPruneScan 2100).exec (stateOf smallEnv [rootCall, axisCall, nextCall])).map
      fun p => p.2.nodes.filterMap killedPartHash) =
      some [(axisCall.node lengthHash).hash, (axisCall.node lengthHash).hash] := by decide +kernel
  obtain ⟨⟨r, s'⟩, he, hkilled⟩ := Option.map_eq_some_iff.1 hsome
  have hnone : (stateOf smallEnv [rootCall, axisCall, nextCall]).nodes.filterMap killedPartHash = [] := by
    decide
  have hnd := h smallEnv _ s' [.scan 2100] (oneTombstoneEach_of_none hnone)
    (List.pairwise_singleton _ _) (.cons ⟨r, he⟩ .nil)
  dsimp only at hkilled
  rw [hkilled] at hnd
  simp at hnd

end Myco.Prune
