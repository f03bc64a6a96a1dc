import Myco.Prune.Scan

/-!
# What a scan spares

Whatever a rule declares dead was there when the scan began, unprotected and no tip, and past the
rule's grace (`PastGrace`, one case a rule); what replaces it is another node, and one that the
same rule leaves alone, unless it is a plate that a later plate supersedes (`candidate_spares`).
-/

namespace Myco.Prune

open Myco.Lib Myco.Canonical Myco.Schema Myco.Substrate

variable {env : Env} {s m s' : ServerState env} {t : UInt64} {n : DagNode} {rule : PruneRule}

/-- How long each rule waits, in cycles of the counter. -/
inductive PastGrace (dag : Dag) (t : UInt64) (n : DagNode) : PruneRule → Prop
  | orphan : n.createdAtCycle.toNat + 1000 ≤ t.toNat →
      (∀ tip, dag.tip = some tip → ¬ Reaches dag tip n.hash) → PastGrace dag t n orphanRule
  | staleAxis {name : String} : stripPrefix axisRegisteredPrefix n.nodeType = some name →
      (∀ q ∈ dag.iterInInsertionOrder, touchedAxis q = some name →
        q.createdAtCycle.toNat + 2000 ≤ t.toNat) → PastGrace dag t n staleAxisRule
  | failedEvolution {f : DagNode} : f ∈ dag.iterInInsertionOrder → FailureOf n f →
      n.createdAtCycle < f.createdAtCycle → f.createdAtCycle.toNat + 1000 < t.toNat →
      PastGrace dag t n failedEvolutionRule
  | duplicate : n.createdAtCycle.toNat + 1000 ≤ t.toNat → PastGrace dag t n duplicateRule
  | unreachable : n.createdAtCycle.toNat + 1000 ≤ t.toNat →
      (∀ tip, dag.tip = some tip → ¬ Reaches dag tip n.hash) → PastGrace dag t n unreachableRule
  | supersededPlate {p : DagNode} : p ∈ dag.iterInInsertionOrder → n.hash ∈ supersedes p →
      n.createdAtCycle < p.createdAtCycle → p.createdAtCycle.toNat + 1000 < t.toNat →
      PastGrace dag t n supersededPlateRule

/-- `h` is the hash of another node, which the rule does not select along with `n`. -/
def SparedReplacement (dag : Dag) (rule : PruneRule) (selected : List PruneCandidate)
    (n : DagNode) (h : NodeHash) : Prop :=
  h ≠ n.hash ∧ ∃ q ∈ dag.iterInInsertionOrder, q.hash = h ∧
    (h ∉ partsOf selected ∨
      rule = supersededPlateRule ∧ ∃ p ∈ dag.iterInInsertionOrder, h ∈ supersedes p ∧
        q.createdAtCycle < p.createdAtCycle)

/-- What a candidate of a scan that began with `dag` says of a living DAG. -/
structure Spares (dag : Dag) (t : UInt64) (rule : PruneRule) (selected : List PruneCandidate)
    (c : PruneCandidate) (n : DagNode) : Prop where
  mem : n ∈ dag.iterInInsertionOrder
  part : c.Of n
  tip : some n.hash ≠ dag.tip
  unprotected : ¬ isP10InvariantProtected n.nodeType
  grace : PastGrace dag t n rule
  replacement : ∀ h, c.replacedByHash = some h → SparedReplacement dag rule selected n h

/-! ### Saturating cutoffs -/

theorem le_cutoff {grace a t : UInt64} (h : a ≤ saturatingSub t grace) (ht : grace < t) :
    a.toNat + grace.toNat ≤ t.toNat := by
  rw [UInt64.le_iff_toNat_le, saturatingSub_toNat] at h
  rw [UInt64.lt_iff_toNat_lt] at ht
  omega

theorem lt_since {grace a t : UInt64} (h : grace < saturatingSub t a) :
    a.toNat + grace.toNat < t.toNat := by
  rw [UInt64.lt_iff_toNat_lt, saturatingSub_toNat] at h
  omega

/-! ### Rule by rule -/

section

variable {l : Ledger env.blake3} {c : PruneCandidate}

theorem spares_orphan (h : c ∈ orphanRule.detect l.dag (.forDag l.dag) t) :
    ∃ n, Spares l.dag t orphanRule (orphanRule.detect l.dag (.forDag l.dag) t) c n := by
  obtain ⟨n, hn, hof, ⟨ht, hold, hprot, htip, href⟩, hnone⟩ := mem_detectOrphan h
  refine ⟨n, hn, hof, htip, hprot, .orphan (le_cutoff hold ht) ?_, by simp [hnone]⟩
  -- whatever is reached but by staying at the tip is some node's parent
  intro tip htip' hreach
  rcases Relation.ReflTransGen.cases_tail hreach with heq | ⟨b, -, hb⟩
  · exact htip (heq ▸ htip'.symm)
  · obtain ⟨q, hq, -, hpar⟩ := edge_iff.1 hb
    exact href (List.mem_flatMap.2 ⟨q, hq, hpar⟩)

theorem spares_staleAxis (h : c ∈ staleAxisRule.detect l.dag (.forDag l.dag) t) :
    ∃ n, Spares l.dag t staleAxisRule (staleAxisRule.detect l.dag (.forDag l.dag) t) c n := by
  obtain ⟨n, hn, hof, ⟨ht, name, hname, htouch⟩, hel, hnone⟩ := mem_detectStaleAxis h
  refine ⟨n, hn, hof, hel.2.1, hel.1, .staleAxis hname fun q hq hk => ?_, by simp [hnone]⟩
  exact le_cutoff (htouch q hq hk) ht

theorem spares_failedEvolution (h : c ∈ failedEvolutionRule.detect l.dag (.forDag l.dag) t) :
    ∃ n, Spares l.dag t failedEvolutionRule
      (failedEvolutionRule.detect l.dag (.forDag l.dag) t) c n := by
  obtain ⟨n, hn, hof, hel, hfalse, f, hf, hfail, hlt, hrep⟩ := mem_detectFailedEvolution h
  refine ⟨n, hn, hof, hel.2.1, hel.1,
    .failedEvolution hf hfail hlt (lt_since (hfalse.2.2 f hf hfail)), fun k hk => ?_⟩
  cases hrep.symm.trans hk
  -- the replacement is of another type than what the rule selects
  have hnot : ∀ q ∈ l.nodes, Falsified l.dag t q → q.hash ≠ f.hash := by
    intro q hq hfq heq
    obtain rfl := eq_of_key_eq l.recorded.nodup hq hf heq
    obtain ⟨op, -, hop⟩ := hfail
    exact not_startsWith hfq.type (by decide) (startsWith_of_stripPrefix hop)
  refine ⟨(hnot n hn hfalse).symm, f, hf, rfl, .inl fun hsel => ?_⟩
  obtain ⟨d, hd, hk⟩ := List.mem_map.1 hsel
  obtain ⟨q, hq, hofq, -, hfq, -⟩ := mem_detectFailedEvolution hd
  exact hnot q hq hfq (hofq.1.symm.trans hk)

/-- Two nodes with the same content are not both the first. -/
theorem Duplicated.first_eq {dag : Dag} {q : DagNode} (hn : Duplicated dag t n)
    (hq : Duplicated dag t q) (hsame : SameContent n q) : q = n := by
  obtain ⟨-, -, xs, ys, hxs, hfirst, -⟩ := hn
  obtain ⟨-, -, xs', ys', hxs', hfirst', -⟩ := hq
  have hsame' : SameContent q n := ⟨hsame.2.1 ▸ hsame.1, hsame.2.1.symm, hsame.2.2.symm⟩
  rcases List.append_eq_append_iff.1 (hxs.symm.trans hxs') with ⟨as, rfl, has⟩ | ⟨as, rfl, has⟩
  · cases as with
    | nil => exact (List.cons.inj has).1.symm
    | cons a as =>
      obtain ⟨rfl, -⟩ := List.cons.inj has
      exact absurd hsame' (hfirst' n (by simp))
  · cases as with
    | nil => exact (List.cons.inj has).1
    | cons a as =>
      obtain ⟨rfl, -⟩ := List.cons.inj has
      exact absurd hsame (hfirst q (by simp))

theorem spares_duplicate (h : c ∈ duplicateRule.detect l.dag (.forDag l.dag) t) :
    ∃ n, Spares l.dag t duplicateRule (duplicateRule.detect l.dag (.forDag l.dag) t) c n := by
  obtain ⟨n, hn, hof, hel, hdup, m, hm, hsame, hne, hrep⟩ := mem_detectDuplicate h
  refine ⟨n, hn, hof, hel.2.1, hel.1, .duplicate (le_cutoff hdup.2.1 hdup.1), fun k hk => ?_⟩
  cases hrep.symm.trans hk
  refine ⟨hne, m, hm, rfl, .inl fun hsel => ?_⟩
  obtain ⟨d, hd, hk⟩ := List.mem_map.1 hsel
  obtain ⟨q, hq, hofq, -, hdq, -⟩ := mem_detectDuplicate hd
  obtain rfl := eq_of_key_eq l.recorded.nodup hq hm (hofq.1.symm.trans hk)
  exact hne (congrArg DagNode.hash (hdup.first_eq hdq hsame))

theorem spares_supersededPlate
    (h : c ∈ supersededPlateRule.detect l.dag (.forDag l.dag) t) :
    ∃ n, Spares l.dag t supersededPlateRule
      (supersededPlateRule.detect l.dag (.forDag l.dag) t) c n := by
  obtain ⟨n, hn, hof, hel, hsup, p, hp, hmem, hlt, hrep⟩ := mem_detectSupersededPlate h
  refine ⟨n, hn, hof, hel.2.1, hel.1,
    .supersededPlate hp hmem hlt (lt_since (hsup.2.2.2 p hp hmem)), fun k hk => ?_⟩
  cases hrep.symm.trans hk
  refine ⟨fun heq => ?_, p, hp, rfl, ?_⟩
  · obtain rfl := eq_of_key_eq l.recorded.nodup hp hn heq
    exact UInt64.lt_irrefl _ hlt
  · by_cases hsel : p.hash ∈ partsOf (supersededPlateRule.detect l.dag (.forDag l.dag) t)
    · obtain ⟨d, hd, hk⟩ := List.mem_map.1 hsel
      obtain ⟨q, hq, hofq, -, -, p', hp', hmem', hlt', -⟩ := mem_detectSupersededPlate hd
      obtain rfl := eq_of_key_eq l.recorded.nodup hq hp (hofq.1.symm.trans hk)
      exact .inr ⟨rfl, p', hp', hmem', hlt'⟩
    · exact .inl hsel

end

/-- What the scan has buried by now hangs from the tip, and so does what the walk began at. -/
theorem spares_unreachable {ps : List NodeHash} {c : PruneCandidate}
    (hpath : Path Buries s.nodes ps m.nodes)
    (h : c ∈ unreachableRule.detect m.ledger.dag (.forDag s.ledger.dag) t) :
    ∃ n, Spares s.ledger.dag t unreachableRule
      (unreachableRule.detect m.ledger.dag (.forDag s.ledger.dag) t) c n := by
  obtain ⟨n, hn, hof, hel, ht, hold, ⟨-, hdet⟩, hnone⟩ := mem_detectUnreachable h
  obtain ⟨ts, hm, hts, -⟩ := tombstones_of_path hpath
  have hns : n ∈ s.nodes := by
    rw [show m.ledger.nodes = s.nodes ++ ts from hm] at hn
    refine (List.mem_append.1 hn).resolve_right fun hn => hel.1 ⟨internalMortalityEventPrefix, ?_, ?_⟩
    · decide
    · exact hts n hn
  refine ⟨n, hns, hof, hel.2.1, hel.1, .unreachable (le_cutoff hold ht) fun tip htip hreach => ?_,
    by simp [hnone]⟩
  have hsub : s.ledger.nodes ⊆ m.ledger.nodes := by
    show s.nodes ⊆ m.nodes
    rw [hm]
    exact List.subset_append_left _ _
  obtain ⟨r, hr, hrtip⟩ := reaches_of_path hpath (.inr ((Ledger.tip_eq s.ledger).symm.trans htip))
  refine hdet r (List.mem_append_left _ ?_) (hrtip.trans (hreach.mono hsub))
  rw [Option.mem_toList]
  exact hr

/-! ### Every rule of a scan -/

theorem rules_follow {ctx : PruneScanCtx} {rules : List PruneRule}
    {r : Except SubstrateError (List (List NodeHash))}
    (h : (rules.mapM (runRule ctx t)).exec s = some (r, s')) :
    ∃ ps, Path Buries s.nodes ps s'.nodes := by
  induction rules generalizing s r with
  | nil =>
    cases h
    exact ⟨[], .nil⟩
  | cons rule rules ih =>
    have hrule : ∀ r m, (runRule ctx t rule).exec s = some (r, m) →
        ∃ ps, Path Buries s.nodes ps m.nodes := by
      intro r m h
      rcases runRule_follows h with ⟨-, -, hp⟩ | ⟨-, ps, -, -, hp⟩
      · exact ⟨_, hp⟩
      · exact ⟨ps, hp⟩
    rw [List.mapM_cons] at h
    rcases Prog.exec_bind_eq_some.1 h with ⟨e, h1, -⟩ | ⟨hs, m, h1, h2⟩
    · exact hrule _ _ h1
    · obtain ⟨ps, hp⟩ := hrule _ _ h1
      rcases Prog.exec_bind_eq_some.1 h2 with ⟨e, h3, -⟩ | ⟨hss, u, h3, h4⟩
      · obtain ⟨qs, hq⟩ := ih h3
        exact ⟨_, hp.append hq⟩
      · cases h4
        obtain ⟨qs, hq⟩ := ih h3
        exact ⟨_, hp.append hq⟩

/-- Whichever rule it is that a scan has come to, each of its candidates is a node that was there
when the scan began, and that the rule was right to select. -/
theorem candidate_spares {pre post : List PruneRule} {hss : List (List NodeHash)}
    (hsplit : seedRules = pre ++ rule :: post)
    (hpre : (pre.mapM (runRule (.forDag s.ledger.dag) t)).exec s = some (.ok hss, m)) :
    ∀ c ∈ rule.detect m.ledger.dag (.forDag s.ledger.dag) t, ∃ n, Spares s.ledger.dag t rule
      (rule.detect m.ledger.dag (.forDag s.ledger.dag) t) c n := by
  intro c hc
  obtain ⟨ps, hpath⟩ := rules_follow hpre
  obtain ⟨ts, hm, hts, -⟩ := tombstones_of_path hpath
  have hsteady : ∀ r : PruneRule, Steady r → r.detect m.ledger.dag (.forDag s.ledger.dag) t =
      r.detect s.ledger.dag (.forDag s.ledger.dag) t := fun r hr => hr _ _ ts _ t hm hts
  cases pre with
  | nil =>
    obtain ⟨rfl, -⟩ := List.cons.inj hsplit
    cases hpre
    exact spares_orphan hc
  | cons r pre =>
    have hmem : rule ∈ [staleAxisRule, failedEvolutionRule, duplicateRule, unreachableRule,
        supersededPlateRule] := by
      rw [(List.cons.inj hsplit).2]
      simp
    simp only [List.mem_cons, List.not_mem_nil, or_false] at hmem
    rcases hmem with rfl | rfl | rfl | rfl | rfl
    · rw [hsteady _ steady_staleAxisRule] at hc ⊢
      exact spares_staleAxis hc
    · rw [hsteady _ steady_failedEvolutionRule] at hc ⊢
      exact spares_failedEvolution hc
    · rw [hsteady _ steady_duplicateRule] at hc ⊢
      exact spares_duplicate hc
    · exact spares_unreachable hpath hc
    · rw [hsteady _ steady_supersededPlateRule] at hc ⊢
      exact spares_supersededPlate hc

/-! ### A chain of plates -/

def lateRootCall : Insertion := ⟨[], "genesis_event:0.1", 1, []⟩

def lateNoteCall : Insertion := ⟨[(lateRootCall.node lengthHash).hash], "note:first", 1, [1]⟩

def lateNextCall : Insertion := ⟨[(lateRootCall.node lengthHash).hash], "cycle_advanced", 2, [1, 2]⟩

def firstPlate : Insertion :=
  ⟨[(lateRootCall.node lengthHash).hash], "forged_understanding:idea", 1, [1]⟩

def secondPlate : Insertion :=
  ⟨[(firstPlate.node lengthHash).hash], "forged_understanding:idea", 2,
    cbEncode [("supersedes", .array [hashValue (firstPlate.node lengthHash).hash])]⟩

def thirdPlate : Insertion :=
  ⟨[(secondPlate.node lengthHash).hash], "forged_understanding:idea", 3,
    cbEncode [("title", .string "idea"),
      ("supersedes", .array [hashValue (secondPlate.node lengthHash).hash])]⟩

/-- A server with three plates, each superseding the one before. -/
def plates : ServerState smallEnv :=
  stateOf smallEnv [lateRootCall, firstPlate, secondPlate, thirdPlate]

/-- What the plate rule, run last, selects of the three plates. -/
theorem candidate_spares_plates : ∃ m hss,
    ((seedRules.take 5).mapM (runRule (.forDag plates.ledger.dag) 2100)).exec plates =
      some (.ok hss, m) ∧
    ∀ c ∈ supersededPlateRule.detect m.ledger.dag (.forDag plates.ledger.dag) 2100,
      ∃ n, Spares plates.ledger.dag 2100 supersededPlateRule
        (supersededPlateRule.detect m.ledger.dag (.forDag plates.ledger.dag) 2100) c n := by
  have hsome : (((seedRules.take 5).mapM (runRule (.forDag plates.ledger.dag) 2100)).exec
      plates).map (fun p => p.1.toOption) = some (some [[], [], [], [], []]) := by decide +kernel
  obtain ⟨⟨r, m⟩, he, hr⟩ := Option.map_eq_some_iff.1 hsome
  cases toOption_eq_some.1 hr
  have hsplit : seedRules = seedRules.take 5 ++ supersededPlateRule :: [] := rfl
  exact ⟨m, _, he, candidate_spares hsplit he⟩

/-- An orphan is selected at the age of 1000 cycles sharp, and of three plates that supersede each
other the middle one is selected along with the first, which it replaces. -/
theorem orphan_at_grace_and_replacement_selected :
    (¬ ∀ (env : Env) (s m : ServerState env) (t : UInt64) (pre post : List PruneRule)
      (rule : PruneRule) (hss : List (List NodeHash)), seedRules = pre ++ rule :: post →
      (pre.mapM (runRule (.forDag s.ledger.dag) t)).exec s = some (.ok hss, m) →
      ∀ c ∈ rule.detect m.ledger.dag (.forDag s.ledger.dag) t, rule = orphanRule →
        ∃ n ∈ s.nodes, c.Of n ∧ n.createdAtCycle.toNat + 1000 < t.toNat) ∧
    (¬ ∀ (env : Env) (s m : ServerState env) (t : UInt64) (pre post : List PruneRule)
      (rule : PruneRule) (hss : List (List NodeHash)), seedRules = pre ++ rule :: post →
      (pre.mapM (runRule (.forDag s.ledger.dag) t)).exec s = some (.ok hss, m) →
      ∀ c ∈ rule.detect m.ledger.dag (.forDag s.ledger.dag) t, ∀ h, c.replacedByHash = some h →
        h ∉ partsOf (rule.detect m.ledger.dag (.forDag s.ledger.dag) t)) := by
  constructor
  · intro h
    have hall := h smallEnv (stateOf smallEnv [lateRootCall, lateNoteCall, lateNextCall]) _ 1001 []
      seedRules.tail orphanRule [] rfl rfl
    have hparts : (orphanRule.detect (insertAll lengthHash [lateRootCall, lateNoteCall,
        lateNextCall]) (.forDag (insertAll lengthHash [lateRootCall, lateNoteCall, lateNextCall]))
        1001).map PruneCandidate.partHash = [(lateNoteCall.node lengthHash).hash] := by
      decide
    obtain ⟨c, hc, hpart⟩ := List.mem_map.1 (hparts ▸ List.mem_singleton_self _)
    obtain ⟨n, hn, hof, hlt⟩ := hall c hc rfl
    have hage : ∀ n ∈ (stateOf smallEnv [lateRootCall, lateNoteCall, lateNextCall]).nodes,
        n.hash = (lateNoteCall.node lengthHash).hash → ¬ n.createdAtCycle.toNat + 1000 < 1001 := by
      decide
    exact hage n hn (hof.1.symm.trans hpart) hlt
  · intro h
    have hsome : (((seedRules.take 5).mapM (runRule (.forDag plates.ledger.dag) 2100)).exec
        plates).map (fun p => (p.1.toOption,
          (supersededPlateRule.detect p.2.ledger.dag (.forDag plates.ledger.dag) 2100).map
            fun c => (c.partHash, c.replacedByHash))) =
        some (some [[], [], [], [], []],
          [((firstPlate.node lengthHash).hash, some (secondPlate.node lengthHash).hash),
            ((secondPlate.node lengthHash).hash, some (thirdPlate.node lengthHash).hash)]) := by
      decide +kernel
    obtain ⟨⟨r, m⟩, he, hr⟩ := Option.map_eq_some_iff.1 hsome
    obtain ⟨hr, hsel⟩ := Prod.mk.inj hr
    cases toOption_eq_some.1 hr
    obtain ⟨c, hc, hrep⟩ := List.mem_map.1 (hsel ▸ List.mem_cons_self)
    obtain ⟨d, hd, hpart⟩ := List.mem_map.1
      (hsel ▸ List.mem_cons_of_mem _ (List.mem_singleton_self _))
    refine h smallEnv plates m 2100 (seedRules.take 5) [] supersededPlateRule _ rfl he c hc _
      (congrArg Prod.snd hrep) ?_
    exact List.mem_map.2 ⟨d, hd, congrArg Prod.fst hpart⟩

end Myco.Prune
