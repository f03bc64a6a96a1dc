import Myco.Lib.Streaks
import Myco.Tropism.Saturation

/-!
# Episodes of saturation

Over a run of snapshots the counters of the stage machine are streaks (`Keeping`): of snapshots
over budget past the floor, and of those that came to saturation. So the stages and the events are
as the streaks say (`counts_exactly`), and the end of it all is proposed once in each episode that
is long enough (`Episode.proposals`).
-/

namespace Myco.Tropism

open Myco.Lib Myco.Schema Myco.Substrate

variable {env : Env} (b : CostBudgets) {m m' : Metabolism env}

/-! ### Runs -/

/-- What a snapshot was given, and what came of it. -/
structure Outcome where
  cycle : UInt64
  cost : CostSnapshot
  stage : SaturationStage
  /-- the types of the events that it emitted -/
  emitted : List String
  /-- the alarms that it raised, each of which reads the clock once -/
  alarms : Nat

/-- Whatever else the substrate does, what the stage machine remembers it leaves alone. -/
structure Meanwhile (m m' : Metabolism env) : Prop where
  stage : m'.server.saturationStage = m.server.saturationStage
  table : m'.server.lastBudgetExhaustedPerAxis = m.server.lastBudgetExhaustedPerAxis
  post : m'.postEligibilityConsecutiveCycles = m.postEligibilityConsecutiveCycles
  saturated : m'.saturatedConsecutiveCycles = m.saturatedConsecutiveCycles
  proposal : m'.lastSaturationMortalityProposalAtCycle = m.lastSaturationMortalityProposalAtCycle
  nodes : m.server.nodes <+: m'.server.nodes
  clashed : Clashed m → Clashed m'

/-- The substrate comes to a cycle, and takes a snapshot of what it cost. -/
def Snaps (suppressEmitForTest : Bool) (m : Metabolism env) (o : Outcome) (m' : Metabolism env) :
    Prop :=
  ∃ u r es, Meanwhile m u ∧ u.server.cycleCounter = o.cycle ∧
    (applyP11cAndEmit b suppressEmitForTest o.cost).exec u = some (r, m') ∧
    m'.server.saturationStage = o.stage ∧
    m'.server.nodes = u.server.nodes ++ es ∧ es.map DagNode.nodeType = o.emitted ∧
    m'.server.readings = u.server.readings + o.alarms

namespace CostBudgets

/-- The snapshot is within all budgets. -/
def Covers (cost : CostSnapshot) : Prop :=
  cost.computeNs ≤ b.computeNsPerCycle ∧ cost.networkBytes ≤ b.networkBytesPerCycle ∧
    cost.storageBytes ≤ b.storageBytesPerCycle

instance (cost : CostSnapshot) : Decidable (b.Covers cost) := inferInstanceAs (Decidable (_ ∧ _))

theorem anyExceeded_iff {cost : CostSnapshot} : b.anyExceeded cost = true ↔ ¬ b.Covers cost := by
  simp only [anyExceeded, axes, List.any_cons, List.any_nil, Bool.or_false, CostAxis.Exceeded,
    Covers, Bool.or_eq_true, decide_eq_true_eq, UInt64.lt_iff_toNat_lt, UInt64.le_iff_toNat_le]
  omega

end CostBudgets

/-- The snapshot exceeds a budget at a cycle that is past the floor. -/
def Exceeds (o : Outcome) : Bool :=
  !decide (b.Covers o.cost) && decide (b.preEligibilityCycleFloor ≤ o.cycle)

def Outcome.isSaturated (o : Outcome) : Bool := o.stage = .saturated

theorem isSaturated_iff {o : Outcome} : o.isSaturated = true ↔ o.stage = .saturated :=
  decide_eq_true_iff

/-- The stage before the next snapshot. -/
def stageAfter (os : List Outcome) : SaturationStage := (os.getLast?.map (·.stage)).getD .normal

/-- One event, if `c`. -/
abbrev onceIf (c : Prop) [Decidable c] : Nat := if c then 1 else 0

/-- What a snapshot comes to after the snapshots `pre`. -/
structure Tells (suppressEmitForTest : Bool) (pre : List Outcome) (o : Outcome) : Prop where
  normal : o.stage = .normal ↔ b.Covers o.cost
  preEligibility : o.stage = .preEligibility ↔
    ¬ b.Covers o.cost ∧ o.cycle < b.preEligibilityCycleFloor
  saturated : o.stage = .saturated ↔ Exceeds b o = true ∧
    LastAll (Exceeds b) b.sustainedSaturationCycleThreshold.toNat (pre ++ [o])
  postEligibility : o.stage = .postEligibility ↔ Exceeds b o = true ∧
    ¬ LastAll (Exceeds b) b.sustainedSaturationCycleThreshold.toNat (pre ++ [o])
  saturatedEvents : o.emitted.count substrateSaturatedType =
    onceIf (o.stage = .saturated ∧ stageAfter pre ≠ .saturated)
  restoredEvents : o.emitted.count substrateNormalRestoredType =
    onceIf (o.stage = .normal ∧ stageAfter pre ≠ .normal)
  proposals : o.emitted.count saturationProposalType =
    onceIf (streak Outcome.isSaturated (pre ++ [o]) =
      max 1 b.sustainedSaturationMortalityCycleThreshold.toNat)
  silent : suppressEmitForTest = false →
    o.alarms = 0 ∧ ∀ t ∈ o.emitted, ¬ startsWith immunePrefix t

/-- The counters are streaks. -/
structure Keeping (suppressEmitForTest : Bool) (os : List Outcome) (m : Metabolism env) : Prop where
  stage : m.server.saturationStage = stageAfter os
  post : m.postEligibilityConsecutiveCycles.toNat = min (streak (Exceeds b) os) (2 ^ 64 - 1)
  saturated : m.saturatedConsecutiveCycles.toNat =
    min (streak Outcome.isSaturated os) (2 ^ 64 - 1)
  proposal : m.lastSaturationMortalityProposalAtCycle.isSome = true ↔
    max 1 b.sustainedSaturationMortalityCycleThreshold.toNat ≤ streak Outcome.isSaturated os
  inLog : InLog m
  told : ∀ pre o post, os = pre ++ o :: post → Tells b suppressEmitForTest pre o

/-- A saturating counter keeps a streak up to its last value. -/
theorem le_saturatingAdd_one {c k : UInt64} {n : Nat} (h : c.toNat = min n (2 ^ 64 - 1)) :
    saturatingAdd c 1 ≥ k ↔ k.toNat ≤ n + 1 := by
  have hk := k.toNat_lt
  have hone : (1 : UInt64).toNat = 1 := by decide
  rw [ge_iff_le, UInt64.le_iff_toNat_le, saturatingAdd_toNat, hone, h]
  omega

theorem toNat_saturatingAdd_one_of {c : UInt64} {n : Nat} (h : c.toNat = min n (2 ^ 64 - 1)) :
    (saturatingAdd c 1).toNat = min (n + 1) (2 ^ 64 - 1) := by
  have hone : (1 : UInt64).toNat = 1 := by decide
  rw [saturatingAdd_toNat, hone, h]
  omega

section

variable {f : Bool} {pre : List Outcome} {o : Outcome}

theorem exceeds_iff : Exceeds b o = true ↔
    ¬ b.Covers o.cost ∧ b.preEligibilityCycleFloor ≤ o.cycle := by
  unfold Exceeds
  rw [Bool.and_eq_true, Bool.not_eq_true', decide_eq_false_iff_not, decide_eq_true_eq]

/-- The stage that a snapshot comes to, by what is over budget and for how long. -/
theorem nextStage_eq (hcycle : m.server.cycleCounter = o.cycle)
    (hpost : m.postEligibilityConsecutiveCycles.toNat =
      min (streak (Exceeds b) pre) (2 ^ 64 - 1)) :
    m.nextStage b o.cost =
      if b.Covers o.cost then .normal
      else if o.cycle < b.preEligibilityCycleFloor then .preEligibility
      else if b.sustainedSaturationCycleThreshold.toNat ≤ streak (Exceeds b) (pre ++ [o]) then
        .saturated
      else .postEligibility := by
  unfold Metabolism.nextStage
  by_cases hcov : b.Covers o.cost
  · have hany : (!b.anyExceeded o.cost) = true := by
      rw [Bool.not_eq_true', ← Bool.not_eq_true, b.anyExceeded_iff]
      exact not_not.2 hcov
    rw [if_pos hany, if_pos hcov]
  · have hany : ¬ (!b.anyExceeded o.cost) = true := by
      rw [Bool.not_eq_true', Bool.not_eq_false]
      exact b.anyExceeded_iff.2 hcov
    rw [if_neg hany, if_neg hcov, hcycle]
    by_cases hfloor : o.cycle < b.preEligibilityCycleFloor
    · rw [if_pos hfloor, if_pos hfloor]
    · have hex : Exceeds b o = true := (exceeds_iff b).2 ⟨hcov, UInt64.not_lt.1 hfloor⟩
      rw [if_neg hfloor, if_neg hfloor, streak_concat_pos hex]
      exact if_congr (le_saturatingAdd_one hpost) rfl rfl

/-- The counters after a stage. -/
theorem stocked_post (hcycle : m.server.cycleCounter = o.cycle)
    (hpost : m.postEligibilityConsecutiveCycles.toNat =
      min (streak (Exceeds b) pre) (2 ^ 64 - 1)) :
    (m.stocked b o.cost).postEligibilityConsecutiveCycles.toNat =
      min (streak (Exceeds b) (pre ++ [o])) (2 ^ 64 - 1) := by
  have hstage := nextStage_eq b hcycle hpost
  unfold Metabolism.stocked
  by_cases hex : Exceeds b o = true
  · obtain ⟨hcov, hfloor⟩ := (exceeds_iff b).1 hex
    rw [if_neg hcov, if_neg (UInt64.not_lt.2 hfloor)] at hstage
    rw [streak_concat_pos hex, hstage]
    split
    · exact toNat_saturatingAdd_one_of hpost
    · exact toNat_saturatingAdd_one_of hpost
  · rw [streak_concat_neg hex, Nat.zero_min]
    by_cases hcov : b.Covers o.cost
    · rw [hstage, if_pos hcov]
      rfl
    · have hfloor : o.cycle < b.preEligibilityCycleFloor :=
        UInt64.not_le.1 fun h => hex ((exceeds_iff b).2 ⟨hcov, h⟩)
      rw [hstage, if_neg hcov, if_pos hfloor]
      rfl

theorem stocked_saturated (hstage : o.stage = m.nextStage b o.cost)
    (hsat : m.saturatedConsecutiveCycles.toNat =
      min (streak Outcome.isSaturated pre) (2 ^ 64 - 1)) :
    (m.stocked b o.cost).saturatedConsecutiveCycles.toNat =
      min (streak Outcome.isSaturated (pre ++ [o])) (2 ^ 64 - 1) := by
  rw [streak_concat, Outcome.isSaturated, hstage]
  unfold Metabolism.stocked
  cases m.nextStage b o.cost with
  | saturated => exact toNat_saturatingAdd_one_of hsat
  | normal => rfl
  | preEligibility => rfl
  | postEligibility => rfl

end

theorem count_entryTypes (prev new : SaturationStage) :
    (entryTypes prev new).count substrateSaturatedType =
      onceIf (new = .saturated ∧ prev ≠ .saturated) ∧
    (entryTypes prev new).count substrateNormalRestoredType =
      onceIf (new = .normal ∧ prev ≠ .normal) ∧
    (entryTypes prev new).count saturationProposalType = 0 := by
  cases prev <;> cases new <;> decide

theorem count_proposalTypes :
    (proposalTypes b m).count substrateSaturatedType = 0 ∧
    (proposalTypes b m).count substrateNormalRestoredType = 0 ∧
    (proposalTypes b m).count saturationProposalType = onceIf (DueForP7 b m) := by
  unfold proposalTypes onceIf
  split
  · decide
  · decide

theorem count_marginal {rest : List String} (h : ∀ t ∈ rest, Marginal t) :
    rest.count substrateSaturatedType = 0 ∧ rest.count substrateNormalRestoredType = 0 ∧
    rest.count saturationProposalType = 0 := by
  refine ⟨List.count_eq_zero.2 fun hm => absurd (h _ hm) (by decide),
    List.count_eq_zero.2 fun hm => absurd (h _ hm) (by decide),
    List.count_eq_zero.2 fun hm => absurd (h _ hm) (by decide)⟩

theorem not_immune_entryTypes (prev new : SaturationStage) :
    ∀ t ∈ entryTypes prev new, ¬ startsWith immunePrefix t := by
  cases prev <;> cases new <;> decide

theorem not_immune_proposalTypes : ∀ t ∈ proposalTypes b m, ¬ startsWith immunePrefix t := by
  unfold proposalTypes
  split
  · decide
  · decide

section

variable {f : Bool} {pre : List Outcome} {o : Outcome}

theorem stageAfter_concat : stageAfter (pre ++ [o]) = o.stage := by
  simp [stageAfter]

/-- The proposal is due just when the streak gets to its length. -/
theorem dueForP7_iff (hstage : o.stage = m.nextStage b o.cost)
    (hsat : m.saturatedConsecutiveCycles.toNat =
      min (streak Outcome.isSaturated pre) (2 ^ 64 - 1))
    (hprop : m.lastSaturationMortalityProposalAtCycle.isSome = true ↔
      max 1 b.sustainedSaturationMortalityCycleThreshold.toNat ≤ streak Outcome.isSaturated pre) :
    DueForP7 b (m.stocked b o.cost) ↔ streak Outcome.isSaturated (pre ++ [o]) =
      max 1 b.sustainedSaturationMortalityCycleThreshold.toNat := by
  have hcount := stocked_saturated b hstage hsat
  have hserver : (m.stocked b o.cost).server.saturationStage = o.stage := by
    rw [hstage, Metabolism.stocked, comeTo_stage]
  have hM := b.sustainedSaturationMortalityCycleThreshold.toNat_lt
  unfold DueForP7
  rw [hserver, ge_iff_le, UInt64.le_iff_toNat_le, hcount]
  by_cases hs : o.stage = .saturated
  · have hprop' : (m.stocked b o.cost).lastSaturationMortalityProposalAtCycle =
        m.lastSaturationMortalityProposalAtCycle := by
      rw [Metabolism.stocked, ← hstage, hs]
      rfl
    rw [hprop', ← Option.not_isSome_iff_eq_none, hprop,
      streak_concat_pos (isSaturated_iff.2 hs)]
    simp only [hs, true_and]
    omega
  · rw [streak_concat_neg (mt isSaturated_iff.1 hs)]
    simp only [hs, false_and, false_iff]
    omega

end

section

variable {f : Bool} {pre : List Outcome} {o : Outcome}

/-- From saturation there is no way but back to normal. -/
theorem normal_or_saturated (hle : ∀ x ∈ pre.getLast?, x.cycle ≤ o.cycle)
    (hstage : o.stage = m.nextStage b o.cost) (hcycle : m.server.cycleCounter = o.cycle)
    (hpost : m.postEligibilityConsecutiveCycles.toNat =
      min (streak (Exceeds b) pre) (2 ^ 64 - 1))
    (htold : ∀ pre' x, pre = pre' ++ [x] → Tells b f pre' x)
    (hpos : 0 < streak Outcome.isSaturated pre) : o.stage = .normal ∨ o.stage = .saturated := by
  rcases List.eq_nil_or_concat pre with rfl | ⟨pre', x, rfl⟩
  · rw [streak_nil] at hpos
    omega
  · rw [List.concat_eq_append] at *
    have hx : x.stage = .saturated := by
      by_contra hx
      rw [streak_concat_neg (mt isSaturated_iff.1 hx)] at hpos
      omega
    obtain ⟨hex, hlast⟩ := (htold pre' x rfl).saturated.1 hx
    have hfloor := ((exceeds_iff b).1 hex).2
    have hcycles := hle x (by simp)
    rw [← le_streak_iff] at hlast
    rw [nextStage_eq b hcycle hpost] at hstage
    by_cases hcov : b.Covers o.cost
    · rw [if_pos hcov] at hstage
      exact .inl hstage
    · have hexo : Exceeds b o = true :=
        (exceeds_iff b).2 ⟨hcov, UInt64.le_trans hfloor hcycles⟩
      rw [if_neg hcov, if_neg (UInt64.not_lt.2 (UInt64.le_trans hfloor hcycles)),
        streak_concat_pos hexo, if_pos (by omega)] at hstage
      exact .inr hstage

/-- Once it has been proposed, it stays so as long as the substrate is saturated. -/
theorem proposal_iff (hle : ∀ x ∈ pre.getLast?, x.cycle ≤ o.cycle)
    (hstage : o.stage = m.nextStage b o.cost) (hcycle : m.server.cycleCounter = o.cycle)
    (hpost : m.postEligibilityConsecutiveCycles.toNat =
      min (streak (Exceeds b) pre) (2 ^ 64 - 1))
    (hsat : m.saturatedConsecutiveCycles.toNat =
      min (streak Outcome.isSaturated pre) (2 ^ 64 - 1))
    (hprop : m.lastSaturationMortalityProposalAtCycle.isSome = true ↔
      max 1 b.sustainedSaturationMortalityCycleThreshold.toNat ≤ streak Outcome.isSaturated pre)
    (htold : ∀ pre' x, pre = pre' ++ [x] → Tells b f pre' x) :
    DueForP7 b (m.stocked b o.cost) ∨
      (m.stocked b o.cost).lastSaturationMortalityProposalAtCycle.isSome = true ↔
    max 1 b.sustainedSaturationMortalityCycleThreshold.toNat ≤
      streak Outcome.isSaturated (pre ++ [o]) := by
  rw [dueForP7_iff b hstage hsat hprop]
  unfold Metabolism.stocked
  rw [← hstage]
  by_cases hs : o.stage = .saturated
  · rw [streak_concat_pos (isSaturated_iff.2 hs), hs]
    show _ ∨ m.lastSaturationMortalityProposalAtCycle.isSome = true ↔ _
    rw [hprop]
    omega
  · rw [streak_concat_neg (mt isSaturated_iff.1 hs)]
    have hstays := mt (normal_or_saturated b hle hstage hcycle hpost htold)
    have hnone : o.stage ≠ .normal → ¬ m.lastSaturationMortalityProposalAtCycle.isSome = true := by
      intro hn
      have := hstays (not_or.2 ⟨hn, hs⟩)
      rw [hprop]
      omega
    refine ⟨fun h => ?_, fun h => by omega⟩
    rcases h with h | h
    · omega
    · cases hst : o.stage with
      | saturated => exact absurd hst hs
      | normal =>
        rw [hst] at h
        cases h
      | preEligibility =>
        rw [hst] at h
        exact absurd h (hnone (by rw [hst]; decide))
      | postEligibility =>
        rw [hst] at h
        exact absurd h (hnone (by rw [hst]; decide))

theorem stage_iffs (hstage : o.stage = m.nextStage b o.cost)
    (hcycle : m.server.cycleCounter = o.cycle)
    (hpost : m.postEligibilityConsecutiveCycles.toNat =
      min (streak (Exceeds b) pre) (2 ^ 64 - 1)) :
    (o.stage = .normal ↔ b.Covers o.cost) ∧
    (o.stage = .preEligibility ↔ ¬ b.Covers o.cost ∧ o.cycle < b.preEligibilityCycleFloor) ∧
    (o.stage = .saturated ↔ Exceeds b o = true ∧
      LastAll (Exceeds b) b.sustainedSaturationCycleThreshold.toNat (pre ++ [o])) ∧
    (o.stage = .postEligibility ↔ Exceeds b o = true ∧
      ¬ LastAll (Exceeds b) b.sustainedSaturationCycleThreshold.toNat (pre ++ [o])) := by
  rw [nextStage_eq b hcycle hpost] at hstage
  rw [exceeds_iff, ← le_streak_iff, ← UInt64.not_lt, hstage]
  by_cases hcov : b.Covers o.cost
  · simp [hcov]
  · by_cases hfloor : o.cycle < b.preEligibilityCycleFloor
    · simp [hcov, hfloor]
    · by_cases hlast :
        b.sustainedSaturationCycleThreshold.toNat ≤ streak (Exceeds b) (pre ++ [o])
      · simp [hcov, hfloor, hlast]
      · simp [hcov, hfloor, hlast]

/-- What a snapshot comes to, by what the counters were. -/
theorem Stocktaken.tells {es : List DagNode} (st : Stocktaken b f o.cost m m')
    (hes : m'.server.nodes = m.server.nodes ++ es) (htypes : es.map DagNode.nodeType = o.emitted)
    (hreads : m'.server.readings = m.server.readings + o.alarms)
    (hstage : o.stage = m.nextStage b o.cost) (hcycle : m.server.cycleCounter = o.cycle)
    (hprev : m.server.saturationStage = stageAfter pre) (hlog : InLog m)
    (hpost : m.postEligibilityConsecutiveCycles.toNat =
      min (streak (Exceeds b) pre) (2 ^ 64 - 1))
    (hdue : DueForP7 b (m.stocked b o.cost) ↔ streak Outcome.isSaturated (pre ++ [o]) =
      max 1 b.sustainedSaturationMortalityCycleThreshold.toNat) : Tells b f pre o := by
  obtain ⟨hn, hpre, hsaturated, hposts⟩ := stage_iffs b hstage hcycle hpost
  obtain ⟨es', rest, hes', htypes', hmarginal, hsilent⟩ := st.nodes
  cases List.append_cancel_left (hes.symm.trans hes')
  rw [htypes, ← hstage, hprev] at htypes'
  have he := count_entryTypes (stageAfter pre) o.stage
  have hp := @count_proposalTypes _ b (m.stocked b o.cost)
  have hr := count_marginal hmarginal
  refine ⟨hn, hpre, hsaturated, hposts, ?_, ?_, ?_, fun hf => ⟨?_, ?_⟩⟩
  · rw [htypes', List.count_append, List.count_append, he.1, hp.1, hr.1]
    rfl
  · rw [htypes', List.count_append, List.count_append, he.2.1, hp.2.1, hr.2.1]
    rfl
  · rw [htypes', List.count_append, List.count_append, he.2.2, hp.2.2, hr.2.2, Nat.zero_add]
    exact if_congr hdue rfl rfl
  · have := st.quiet hf hlog
    omega
  · rw [htypes']
    simp only [List.mem_append]
    rintro t ((ht | ht) | ht)
    · exact not_immune_entryTypes _ _ t ht
    · exact not_immune_proposalTypes b t ht
    · exact hsilent hf hlog t ht

theorem Keeping.snaps (hk : Keeping b f pre m) (h : Snaps b f m o m') (hs : ¬ Clashed m')
    (hle : ∀ x ∈ pre.getLast?, x.cycle ≤ o.cycle) : Keeping b f (pre ++ [o]) m' := by
  obtain ⟨u, r, es, hu, hcycle, hrun, hstage', hes, htypes, hreads⟩ := h
  have st := ((does_applyP11cAndEmit b _ _ _ hrun).holds hs).2.stocktaken
  have hlog : InLog u := by
    obtain ⟨es, hes⟩ := hu.nodes
    exact inLog_of_append hes.symm hu.table hk.inLog
  have hpost := hu.post ▸ hk.post
  have hsat := hu.saturated ▸ hk.saturated
  have hprop := hu.proposal ▸ hk.proposal
  have hstage : o.stage = u.nextStage b o.cost := hstage'.symm.trans st.stage
  refine ⟨?_, ?_, ?_, ?_, st.inLog hlog, ?_⟩
  · rw [hstage', stageAfter_concat]
  · rw [st.post]
    exact stocked_post b hcycle hpost
  · rw [st.saturated]
    exact stocked_saturated b hstage hsat
  · rw [st.proposal]
    exact proposal_iff b (f := f) hle hstage hcycle hpost hsat hprop fun pre' x hpre =>
      hk.told pre' x [] hpre
  · intro pre' x post hx
    rcases List.eq_nil_or_concat post with rfl | ⟨post, y, rfl⟩
    · obtain ⟨rfl, hox⟩ := List.append_inj' hx rfl
      cases hox
      exact st.tells b hes htypes hreads hstage hcycle (hu.stage.trans hk.stage) hlog hpost
        (dueForP7_iff b hstage hsat hprop)
    · rw [List.concat_eq_append, ← List.cons_append, ← List.append_assoc] at hx
      exact hk.told pre' x post (List.append_inj' hx rfl).1

end

/-- The stage machine has seen nothing yet. -/
structure Rested (m : Metabolism env) : Prop where
  stage : m.server.saturationStage = .normal
  table : m.server.lastBudgetExhaustedPerAxis = []
  post : m.postEligibilityConsecutiveCycles = 0
  saturated : m.saturatedConsecutiveCycles = 0
  proposal : m.lastSaturationMortalityProposalAtCycle = none

theorem Rested.keeping {f : Bool} (h : Rested m) : Keeping b f [] m where
  stage := h.stage
  post := by
    rw [h.post]
    rfl
  saturated := by
    rw [h.saturated]
    rfl
  proposal := by
    rw [h.proposal, streak_nil]
    simp
  inLog axis cycle hget := by
    rw [h.table] at hget
    cases hget
  told pre o post h := by simp at h

/-- A run of snapshots that all come to saturation, with none before or after that does. -/
structure Episode (os block : List Outcome) : Prop where
  ne_nil : block ≠ []
  saturated : ∀ o ∈ block, o.stage = .saturated
  maximal : ∃ front back, os = front ++ block ++ back ∧
    (∀ o ∈ front.getLast?, o.stage ≠ .saturated) ∧ ∀ o ∈ back.head?, o.stage ≠ .saturated

/-- The stages and the events of a run of snapshots are as the streaks say. -/
structure CountsExactly (suppressEmitForTest : Bool) (os : List Outcome) : Prop where
  told : ∀ pre o post, os = pre ++ o :: post → Tells b suppressEmitForTest pre o
  once : ∀ block, Episode os block →
    (block.map (·.emitted.count saturationProposalType)).sum =
      onceIf (b.sustainedSaturationMortalityCycleThreshold.toNat ≤ block.length)
  never : ∀ o ∈ os, o.stage ≠ .saturated → o.emitted.count saturationProposalType = 0

/-- What a snapshot proposes adds up over an episode. -/
theorem Episode.proposals {f : Bool} {os block : List Outcome} (h : Episode os block)
    (htold : ∀ pre o post, os = pre ++ o :: post → Tells b f pre o) :
    (block.map (·.emitted.count saturationProposalType)).sum =
      onceIf (b.sustainedSaturationMortalityCycleThreshold.toNat ≤ block.length) := by
  obtain ⟨front, back, rfl, hfront, -⟩ := h.maximal
  have hpos := List.length_pos_of_ne_nil h.ne_nil
  rw [@sum_run _ Outcome.isSaturated _ front block
    (max 1 b.sustainedSaturationMortalityCycleThreshold.toNat)
    (fun x hx hs => hfront x hx (isSaturated_iff.1 hs))
    (fun x hx => isSaturated_iff.2 (h.saturated x hx)) (fun pre x post hblock => ?_) (by omega)]
  · exact if_congr (by omega) rfl rfl
  · refine (htold (front ++ pre) x (post ++ back) ?_).proposals
    rw [hblock]
    simp

theorem Snaps.stays {f : Bool} {o : Outcome} (h : Snaps b f m o m') (hc : Clashed m) :
    Clashed m' := by
  obtain ⟨u, r, es, hu, -, hrun, -⟩ := h
  exact (does_applyP11cAndEmit b _ _ _ hrun).stays (hu.clashed hc)

/-- Over a run from the start the counters are streaks. -/
theorem run_keeping {f : Bool} {os : List Outcome} (hm : Rested m)
    (hrun : Path (Snaps b f) m os m') (hs : ¬ Clashed m')
    (hcycles : os.Pairwise fun o p => o.cycle < p.cycle) : Keeping b f os m' := by
  refine hrun.keeps_labels (fun ys o zs u v hos _ hsnap hrest hk => ?_) (hm.keeping b)
  have hv : ¬ Clashed v := fun hc => hs (hrest.keeps (fun _ _ _ h => h.stays b) hc)
  refine hk.snaps b hsnap hv fun x hx => ?_
  rw [hos, List.pairwise_append] at hcycles
  exact UInt64.le_of_lt
    (hcycles.2.2 x (List.mem_of_getLast? hx) o (List.mem_cons_self ..))

theorem counts_exactly (f : Bool) {m m' : Metabolism env} {os : List Outcome} (hm : Rested m)
    (hrun : Path (Snaps b f) m os m') (hs : ¬ Clashed m')
    (hcycles : os.Pairwise fun o p => o.cycle < p.cycle) : CountsExactly b f os := by
  have hk := run_keeping b hm hrun hs hcycles
  refine ⟨hk.told, fun block h => h.proposals b hk.told, fun o ho hne => ?_⟩
  obtain ⟨pre, post, hos⟩ := List.append_of_mem ho
  rw [(hk.told pre o post hos).proposals, streak_concat_neg (mt isSaturated_iff.1 hne)]
  exact if_neg (by omega)

/-! ### One nanosecond too many -/

/-- Every nanosecond is over budget, and saturation is immediate. -/
def noBudget : CostBudgets := ⟨0, 0, 0, 0, 1, 1⟩

def rested : Metabolism (keyedEnv []) := ⟨stateOf (keyedEnv []) [], 0, 0, none⟩

/-- What a snapshot of one nanosecond comes to. -/
def firstOutcome (stage : SaturationStage) (emitted : List String) (alarms : Nat) : Outcome :=
  ⟨0, ⟨1, 0, 0⟩, stage, emitted, alarms⟩

def comesTo (o : Outcome) (p : Except SubstrateError PUnit × Metabolism (keyedEnv [])) : Bool :=
  decide (p.2.server.ledger.Sound) && decide (p.2.server.saturationStage = o.stage) &&
    decide (p.2.server.nodes.map DagNode.nodeType = o.emitted) &&
    decide (p.2.server.readings = o.alarms)

theorem snaps_of_comesTo {f : Bool} {o : Outcome} (hcycle : o.cycle = 0)
    (h : ((applyP11cAndEmit noBudget f o.cost).exec rested).any (comesTo o) = true) :
    ∃ m', Path (Snaps noBudget f) rested [o] m' ∧ ¬ Clashed m' := by
  obtain ⟨⟨r, m'⟩, he, ho⟩ := (Option.any_eq_true _ _).1 h
  simp only [comesTo, Bool.and_eq_true, decide_eq_true_eq] at ho
  obtain ⟨⟨⟨hsound, hstage⟩, htypes⟩, hreads⟩ := ho
  refine ⟨m', .cons ⟨rested, r, m'.server.nodes, ⟨rfl, rfl, rfl, rfl, rfl, List.prefix_rfl, id⟩,
    hcycle.symm, he, hstage, rfl, htypes, ?_⟩ .nil, fun hc => hc hsound⟩
  rw [hreads]
  exact (Nat.zero_add _).symm

theorem counts_exactly_once : CountsExactly noBudget false
    [firstOutcome .saturated [substrateSaturatedType, saturationProposalType,
      budgetExhaustedPrefix ++ "compute_per_cycle"] 0] := by
  obtain ⟨m', hrun, hs⟩ := snaps_of_comesTo (f := false) (o := firstOutcome .saturated
    [substrateSaturatedType, saturationProposalType,
      budgetExhaustedPrefix ++ "compute_per_cycle"] 0) rfl (by decide +kernel)
  exact counts_exactly noBudget false ⟨rfl, rfl, rfl, rfl, rfl⟩ hrun hs (by simp)

/-- Where the emission of exhaustion is suppressed, the detector goes off. -/
theorem silenced_alarm : ∃ (m' : Metabolism (keyedEnv [])) (o : Outcome), Rested rested ∧
    Path (Snaps noBudget true) rested [o] m' ∧ ¬ Clashed m' ∧
    immunePrefix ++ c53DetectorId ∈ o.emitted := by
  obtain ⟨m', hrun, hs⟩ := snaps_of_comesTo (f := true) (o := firstOutcome .saturated
    [substrateSaturatedType, saturationProposalType, immunePrefix ++ c53DetectorId] 1) rfl
    (by decide +kernel)
  exact ⟨m', _, ⟨rfl, rfl, rfl, rfl, rfl⟩, hrun, hs, by simp [firstOutcome]⟩

end Myco.Tropism
