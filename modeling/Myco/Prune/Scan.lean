import Myco.Prune.Selected

/-!
# The prune scan

`run_prune_scan` runs the rules one after the other and writes a tombstone for each candidate as
it goes. What a scan does to the history is a path of `Buries` steps, one a candidate
(`runRule_follows`): a tombstone hangs from the tip and from the part it declares dead, so from a
later tip every part retired so far is reached (`reaches_of_path`).

Tombstones make no difference to what the rules select, but for the rule that walks the graph
(`Steady`).
-/

namespace Myco.Prune

open Myco.Lib Myco.Canonical Myco.Schema Myco.Substrate

variable {env : Env}

/-! ### The code -/

def internalMortalityEventNodeType (category : String) : String :=
  internalMortalityEventPrefix ++ category

/-- The tip, and the part itself. -/
def tombstoneParents (s : ServerState env) (killedPartHash : NodeHash) : List NodeHash :=
  if killedPartHash ∈ s.tipParents then s.tipParents else s.tipParents ++ [killedPartHash]

/-- What `emit_internal_mortality_event` inserts. -/
def tombstone (parents : List NodeHash) (category ruleId : String) (killedPartHash : NodeHash)
    (killedPartNodeType reason : String) (replacedByHash : Option NodeHash)
    (emittedAtCycle : UInt64) : Insertion :=
  ⟨parents, internalMortalityEventNodeType category, emittedAtCycle,
    encodeInternalMortalityEvent category ruleId killedPartHash killedPartNodeType reason
      replacedByHash emittedAtCycle⟩

def emitInternalMortalityEvent (category ruleId : String) (killedPartHash : NodeHash)
    (killedPartNodeType reason : String) (replacedByHash : Option NodeHash)
    (emittedAtCycle : UInt64) : Handler env NodeHash := do
  let s ← get
  insertNode "internal_mortality_event DAG insert"
    (tombstone (tombstoneParents s killedPartHash) category ruleId killedPartHash
      killedPartNodeType reason replacedByHash emittedAtCycle)

structure PruneScanReport where
  rulesRun : List String
  tombstonesEmitted : List NodeHash
  atCycle : UInt64

def emitCandidate (rule : PruneRule) (currentCycle : UInt64) (cand : PruneCandidate) :
    Handler env NodeHash :=
  emitInternalMortalityEvent rule.category rule.ruleId cand.partHash cand.partNodeType
    cand.reason cand.replacedByHash currentCycle

def runRule (ctx : PruneScanCtx) (currentCycle : UInt64) (rule : PruneRule) :
    Handler env (List NodeHash) := do
  let s ← get
  (rule.detect s.ledger.dag ctx currentCycle).mapM (emitCandidate rule currentCycle)

def runPruneScan (currentCycle : UInt64) : Handler env PruneScanReport := do
  let s ← get
  let ctx := PruneScanCtx.forDag s.ledger.dag
  let tombstones ← seedRules.mapM (runRule ctx currentCycle)
  pure ⟨seedRules.map PruneRule.ruleId, tombstones.flatten, currentCycle⟩

def pruneScanDeepCycleInterval : UInt64 := 100

def shouldRunPruneScan (cycleCounter : UInt64) : Bool :=
  cycleCounter > 0 && cycleCounter % pruneScanDeepCycleInterval == 0

/-! ### One tombstone -/

def IsTombstone (n : DagNode) : Prop := startsWith internalMortalityEventPrefix n.nodeType

/-- The history `ns'` is `ns` and a tombstone for `p`, which hangs from `p` and from the tip. -/
def Buries (ns : List DagNode) (p : NodeHash) (ns' : List DagNode) : Prop :=
  ∃ n, ns' = ns ++ [n] ∧ IsTombstone n ∧ killedPartHash n = some p ∧
    ∀ h, h ∈ n.parentHashes ↔ h = p ∨ (ns.map DagNode.hash).getLast? = some h

section

variable {blake3 : Bytes → NodeHash} {parents : List NodeHash}
  {category ruleId nodeType reason : String} {p : NodeHash} {replaced : Option NodeHash} {t : UInt64}

theorem isTombstone_tombstone : IsTombstone
    ((tombstone parents category ruleId p nodeType reason replaced t).node blake3) := by
  show startsWith _ (internalMortalityEventPrefix ++ category)
  exact startsWith_append

/-- A tombstone names the part that it buries. -/
theorem killedPartHash_tombstone
    (hmem : (tombstone parents category ruleId p nodeType reason replaced t).content.length ≤
      isizeMax) :
    killedPartHash ((tombstone parents category ruleId p nodeType reason replaced t).node blake3) =
      some p := by
  have hwf : (replaced.elim Value.null hashValue).WF := by
    cases replaced with
    | none => trivial
    | some h => trivial
  simp only [tombstone, encodeInternalMortalityEvent] at hmem
  rw [killedPartHash, if_pos (c := startsWith _ _) isTombstone_tombstone]
  simp only [tombstone, encodeInternalMortalityEvent, Insertion.node]
  rw [decodeMap?_cbEncode hmem (by simp [Value.WF, hashValue, hwf])]
  simp [bytes32?, get_mapOf, OrdMap.get_cons, hashValue, p.length_eq]

end

theorem tombstoneParents_eq (s : ServerState env) (p : NodeHash) :
    ∃ ps, tombstoneParents s p = s.tipParents ++ ps := by
  unfold tombstoneParents
  split
  · exact ⟨[], (List.append_nil _).symm⟩
  · exact ⟨_, rfl⟩

theorem mem_tombstoneParents {s : ServerState env} {p h : NodeHash} :
    h ∈ tombstoneParents s p ↔ h = p ∨ (s.nodes.map DagNode.hash).getLast? = some h := by
  have htip : (s.nodes.map DagNode.hash).getLast? = some h ↔ h ∈ s.tipParents := by
    rw [← Ledger.tip_eq, ServerState.tipParents, Option.mem_toList]
  rw [htip]
  unfold tombstoneParents
  split
  · rename_i hp
    exact ⟨.inr, fun h => h.elim (fun he => he ▸ hp) id⟩
  · rw [List.mem_append, List.mem_singleton, or_comm]

theorem follows_emitCandidate {rule : PruneRule} {t : UInt64} {c : PruneCandidate} :
    Follows ServerState.nodes Buries c.partHash
      (emitCandidate rule t c : Handler env NodeHash) := by
  intro s r s' h
  rw [emitCandidate, emitInternalMortalityEvent, Prog.exec_get_bind] at h
  obtain ⟨ps, hps⟩ := tombstoneParents_eq s c.partHash
  rcases insertNode_tip_cases h hps with h1 | ⟨h1, h2, h3⟩
  · exact .inl h1
  · exact .inr ⟨_, h1, _, h2, isTombstone_tombstone, killedPartHash_tombstone h3,
      fun h => mem_tombstoneParents⟩

/-! ### One rule -/

def partsOf (cs : List PruneCandidate) : List NodeHash := cs.map PruneCandidate.partHash

/-- A rule buries what it selects, as far as it gets. -/
theorem runRule_follows {ctx : PruneScanCtx} {t : UInt64} {rule : PruneRule}
    {s s' : ServerState env} {r : Except SubstrateError (List NodeHash)}
    (h : (runRule ctx t rule).exec s = some (r, s')) :
    (∃ hs, r = .ok hs ∧
      Path Buries s.nodes (partsOf (rule.detect s.ledger.dag ctx t)) s'.nodes) ∨
    (∃ e ps, r = .error e ∧ ps <+: partsOf (rule.detect s.ledger.dag ctx t) ∧
      Path Buries s.nodes ps s'.nodes) := by
  rw [runRule, Prog.exec_get_bind] at h
  have hone : ∀ c ∈ rule.detect s.ledger.dag ctx t, Follows ServerState.nodes Buries
      (PruneCandidate.partHash c) (emitCandidate rule t c : Handler env NodeHash) :=
    fun c _ => follows_emitCandidate
  exact follows_mapM hone h

/-! ### What the burials of a scan amount to -/

section Burials

variable {ns ns' : List DagNode} {ps : List NodeHash} {p h : NodeHash}

/-- The history after burying `ps` is the one before and their tombstones. -/
theorem tombstones_of_path (hp : Path Buries ns ps ns') : ∃ ts, ns' = ns ++ ts ∧
    (∀ n ∈ ts, IsTombstone n) ∧ ts.filterMap killedPartHash = ps ∧
    (∀ n ∈ ts, ∀ p, killedPartHash n = some p → p ∈ n.parentHashes) ∧
    ∀ n ∈ ts, ∀ h ∈ n.parentHashes,
      h ∈ ps ∨ (ns.map DagNode.hash).getLast? = some h ∨ h ∈ ts.map DagNode.hash := by
  induction hp with
  | nil => exact ⟨[], by simp⟩
  | cons h1 _ ih =>
    obtain ⟨n, rfl, hn, hk, hpar⟩ := h1
    obtain ⟨ts, rfl, hts, hks, hks', hrefs⟩ := ih
    refine ⟨n :: ts, by simp, ?_, by simp [hk, hks], ?_, ?_⟩
    · exact List.forall_mem_cons.2 ⟨hn, hts⟩
    · refine List.forall_mem_cons.2 ⟨fun p hp => ?_, hks'⟩
      exact (hpar p).2 (.inl (Option.some.inj (hp.symm.trans hk)))
    · refine List.forall_mem_cons.2 ⟨fun h hh => ?_, fun m hm h hh => ?_⟩
      · rcases (hpar h).1 hh with rfl | hh
        · exact .inl List.mem_cons_self
        · exact .inr (.inl hh)
      · rcases hrefs m hm h hh with hh | hh | hh
        · exact .inl (List.mem_cons_of_mem _ hh)
        · refine .inr (.inr ?_)
          rw [List.map_append, List.map_singleton, List.getLast?_concat] at hh
          exact List.mem_map.2 ⟨n, List.mem_cons_self, Option.some.inj hh⟩
        · exact .inr (.inr (List.mem_cons_of_mem _ hh))

variable {blake3 : Bytes → NodeHash} {l l' : Ledger blake3}

theorem edge_iff {a b : NodeHash} :
    Edge (parentsOf l.dag) a b ↔ ∃ n ∈ l.nodes, n.hash = a ∧ b ∈ n.parentHashes := by
  unfold Edge parentsOf
  cases ha : l.dag.get a with
  | none =>
    simp only [Option.map_none, Option.getD_none, List.not_mem_nil, false_iff]
    rintro ⟨n, hn, hk, -⟩
    rw [Ledger.get_eq_some.2 ⟨hn, hk⟩] at ha
    cases ha
  | some n =>
    obtain ⟨hn, hk⟩ := Ledger.get_eq_some.1 ha
    constructor
    · exact fun hb => ⟨n, hn, hk, hb⟩
    · rintro ⟨m, hm, hk', hb⟩
      cases eq_of_key_eq l.recorded.nodup hm hn (hk'.trans hk.symm)
      exact hb

theorem Reaches.mono {a b : NodeHash} (h : Reaches l.dag a b) (hsub : l.nodes ⊆ l'.nodes) :
    Reaches l'.dag a b := by
  refine Relation.ReflTransGen.mono (fun x y hxy => ?_) a b h
  obtain ⟨n, hn, hk⟩ := edge_iff.1 hxy
  exact edge_iff.2 ⟨n, hsub hn, hk⟩

/-- The tip reaches what has been buried, and the tip from before. -/
theorem reaches_of_path (hp : Path Buries ns ps l.nodes)
    (hh : h ∈ ps ∨ (ns.map DagNode.hash).getLast? = some h) :
    ∃ r, l.tip = some r ∧ Reaches l.dag r h := by
  generalize hns : l.nodes = ns' at hp
  induction hp generalizing h with
  | nil =>
    rcases hh with hh | hh
    · cases hh
    · subst hns
      exact ⟨h, l.tip_eq.trans hh, .refl⟩
  | cons h1 h2 ih =>
    obtain ⟨n, rfl, -, -, hpar⟩ := h1
    have hlast : ∃ r, l.tip = some r ∧ Reaches l.dag r n.hash :=
      ih (.inr (by simp)) hns
    rcases hh with hh | hh
    · rcases List.mem_cons.1 hh with rfl | hh
      · obtain ⟨r, hr, hreach⟩ := hlast
        obtain ⟨ts, rfl, -⟩ := tombstones_of_path h2
        exact ⟨r, hr, hreach.tail (edge_iff.2 ⟨n, by simp [hns], rfl, (hpar _).2 (.inl rfl)⟩)⟩
      · exact ih (.inl hh) hns
    · obtain ⟨r, hr, hreach⟩ := hlast
      obtain ⟨ts, rfl, -⟩ := tombstones_of_path h2
      exact ⟨r, hr, hreach.tail (edge_iff.2 ⟨n, by simp [hns], rfl, (hpar _).2 (.inr hh)⟩)⟩

end Burials

/-! ### Rules that tombstones do not concern -/

def Steady (rule : PruneRule) : Prop :=
  ∀ (d d' : Dag) (ts : List DagNode) (ctx : PruneScanCtx) (t : UInt64),
    d'.iterInInsertionOrder = d.iterInInsertionOrder ++ ts → (∀ n ∈ ts, IsTombstone n) →
    rule.detect d' ctx t = rule.detect d ctx t

theorem steady_staleAxisRule : Steady staleAxisRule := by
  intro d d' ts ctx t hd hts
  have hnone : ∀ n ∈ ts, stripPrefix axisRegisteredPrefix n.nodeType = none := fun n hn =>
    stripPrefix_eq_none (hts n hn) (by decide)
  have htouch : lastTouch d' = lastTouch d := by
    rw [lastTouch, lastTouch, hd]
    refine buildIndex_append_of_none fun n hn => ?_
    rw [touchedAxis, hnone n hn, stripPrefix_eq_none (hts n hn) (by decide),
      stripPrefix_eq_none (hts n hn) (by decide)]
    rfl
  show detectStaleAxisPastWindow d' ctx t = detectStaleAxisPastWindow d ctx t
  unfold detectStaleAxisPastWindow
  rw [htouch, hd, filterMap_append_of_none]
  intro n hn
  rw [hnone n hn]
  rfl

theorem steady_failedEvolutionRule : Steady failedEvolutionRule := by
  intro d d' ts ctx t hd hts
  have hlast : latestFailure d' = latestFailure d := by
    rw [latestFailure, latestFailure, hd]
    exact buildIndex_append_of_none fun n hn => stripPrefix_eq_none (hts n hn) (by decide)
  show detectSupersededByFailedEvolution d' ctx t = detectSupersededByFailedEvolution d ctx t
  unfold detectSupersededByFailedEvolution
  rw [hlast, hd, filterMap_append_of_none]
  intro n hn
  rw [stripPrefix_eq_none (hts n hn) (by decide)]
  rfl

theorem steady_duplicateRule : Steady duplicateRule := by
  intro d d' ts ctx t hd hts
  have hgroups : duplicateGroups d' = duplicateGroups d := by
    rw [duplicateGroups, duplicateGroups, hd, List.zipIdx_append]
    refine indexValues_append_of_none fun e he => ?_
    rw [duplicateKey, if_neg]
    have hmem : e.1 ∈ ts := by
      rw [← List.zipIdx_map_fst (l := ts)]
      exact List.mem_map_of_mem he
    exact not_redundantInScope (hts _ hmem) (by decide)
  show detectDuplicateContentSubsumed d' ctx t = detectDuplicateContentSubsumed d ctx t
  unfold detectDuplicateContentSubsumed
  rw [hgroups]

theorem steady_supersededPlateRule : Steady supersededPlateRule := by
  intro d d' ts ctx t hd hts
  have hnot : ∀ n ∈ ts, ¬ startsWith forgedUnderstandingPrefix n.nodeType := fun n hn =>
    not_startsWith (hts n hn) (by decide)
  have hby : supersededBy d' = supersededBy d := by
    have hs : supersessions d' = supersessions d := by
      have hnil : ts.flatMap (fun node => (supersedes node).map (·, node)) = [] := by
        refine List.flatMap_eq_nil_iff.2 fun n hn => ?_
        rw [supersedes, if_neg (hnot n hn), List.map_nil]
      rw [supersessions, supersessions, hd, List.flatMap_append, hnil, List.append_nil]
    rw [supersededBy, supersededBy, hs]
  show detectForgedUnderstandingSuperseded d' ctx t = detectForgedUnderstandingSuperseded d ctx t
  unfold detectForgedUnderstandingSuperseded
  rw [hby, hd, filterMap_append_of_none]
  intro n hn
  rw [if_neg (hnot n hn)]

end Myco.Prune
