import Myco.Tropism.Compression

/-!
# Saturation

The stage machine of `observatory.rs`, which `apply_p11c_and_emit` runs once a cycle on what the
cycle cost: the stage, the counters of how long it has gone on, the events on entering a stage, the
proposal to end it all once an episode, the events for each axis that is exhausted, and the detector
of exhaustion that is not in the log.

`does_applyP11cAndEmit` says what one snapshot does, part by part, and `Stocktaken` what is left of
it: the stage and the counters, and the types of the events. The detector finds nothing as long as
the emission works, because the cooldown of an axis is shorter than the window
(`documented_of_coolingDown`).
-/

namespace Myco.Tropism

open Myco.Lib Myco.Canonical Myco.Schema Myco.Substrate

variable {env : Env}

/-! ### Costs and budgets -/

structure CostSnapshot where
  computeNs : UInt64
  networkBytes : UInt64
  storageBytes : UInt64

structure CostBudgets where
  computeNsPerCycle : UInt64
  networkBytesPerCycle : UInt64
  storageBytesPerCycle : UInt64
  preEligibilityCycleFloor : UInt64
  sustainedSaturationCycleThreshold : UInt64
  sustainedSaturationMortalityCycleThreshold : UInt64

/-- What an axis costs, and what it may cost. -/
structure CostAxis where
  name : String
  current : UInt64
  budget : UInt64

def CostAxis.Exceeded (a : CostAxis) : Prop := a.budget < a.current

instance (a : CostAxis) : Decidable a.Exceeded := inferInstanceAs (Decidable (_ < _))

namespace CostBudgets

variable (b : CostBudgets) (cost : CostSnapshot)

def axes : List CostAxis :=
  [⟨"compute_per_cycle", cost.computeNs, b.computeNsPerCycle⟩,
   ⟨"network_per_cycle", cost.networkBytes, b.networkBytesPerCycle⟩,
   ⟨"storage_per_cycle", cost.storageBytes, b.storageBytesPerCycle⟩]

def exceededAxes : List CostAxis := (b.axes cost).filter (·.Exceeded)

def anyExceeded : Bool := (b.axes cost).any (·.Exceeded)

/-- The first axis that is exceeded. -/
def triggeringAxis : String := ((b.exceededAxes cost).head?.map (·.name)).getD "unknown"

end CostBudgets

/-! ### The state -/

/-- A server with the counters of the stage machine. The budgets are a parameter of a run. -/
structure Metabolism (env : Env) where
  server : ServerState env
  postEligibilityConsecutiveCycles : UInt64
  saturatedConsecutiveCycles : UInt64
  lastSaturationMortalityProposalAtCycle : Option UInt64

abbrev Metabolic (env : Env) := Prog (Metabolism env) SubstrateError

/-- `let _ = ..`, on the server. -/
def Metabolic.dropping {α : Type} (m : Handler env α) : Metabolic env PUnit := do
  let _ ← Prog.zoom Metabolism.server (fun m server => { m with server })
    (m.attempt : Handler env (Except SubstrateError α))
  pure ⟨⟩

/-! ### Events -/

def substrateSaturatedType : String := "substrate_saturated"

def substrateNormalRestoredType : String := "substrate_normal_restored"

def budgetExhaustedPrefix : String := "budget_exhausted:"

def compressionProposedPrefix : String := "compression_proposed:"

def saturationMortalityAxisName : String := "metabolic_saturation"

def saturationProposalType : String := selfEuthanasiaProposalPrefix ++ saturationMortalityAxisName

def encodeSubstrateSaturated (atCycle sustainedCycles : UInt64) (triggeringAxis : String) : Bytes :=
  cbEncode [("at_cycle", .uint atCycle), ("sustained_cycles", .uint sustainedCycles),
    ("triggering_axis", .string triggeringAxis)]

def encodeSubstrateNormalRestored (atCycle : UInt64) : Bytes :=
  cbEncode [("at_cycle", .uint atCycle)]

def encodeBudgetExhausted (axis : String) (currentValue budget atCycle : UInt64) : Bytes :=
  cbEncode [("axis", .string axis), ("current_value", .uint currentValue),
    ("budget", .uint budget), ("at_cycle", .uint atCycle)]

def encodeCompressionProposed (ruleId : String) (atCycle : UInt64) (proposedAxis : String)
    (estimatedCandidates : UInt64) : Bytes :=
  cbEncode [("rule_id", .string ruleId), ("at_cycle", .uint atCycle),
    ("proposed_axis", .string proposedAxis), ("estimated_candidates", .uint estimatedCandidates)]

def encodeSaturationProposal (saturatedCycles threshold atCycle : UInt64) : Bytes :=
  cbEncode [("axis_name", .string saturationMortalityAxisName),
    ("reason", .string (s!"metabolic saturation sustained {saturatedCycles.toNat} consecutive " ++
      s!"cycles past threshold {threshold.toNat} (compression insufficient, cost budgets still " ++
      "exhausted); P11.c stage-3 escalation. Awaiting cultivator co-attestation to execute " ++
      "(NOT auto-death).")),
    ("at_cycle", .uint atCycle)]

/-! ### The stage machine -/

variable (b : CostBudgets)

/-- `p11c_advance_stage`: the new stage, and the events on entering it. -/
def p11cAdvanceStage (m : Metabolism env) (cost : CostSnapshot) (anyAxisExceeded : Bool) :
    SaturationStage × List (String × Bytes) :=
  let cycle := m.server.cycleCounter
  let nextConsecutive := saturatingAdd m.postEligibilityConsecutiveCycles 1
  let newStage : SaturationStage :=
    if !anyAxisExceeded then .normal
    else if cycle < b.preEligibilityCycleFloor then .preEligibility
    else if nextConsecutive ≥ b.sustainedSaturationCycleThreshold then .saturated
    else .postEligibility
  let events :=
    if m.server.saturationStage ≠ newStage then
      match newStage with
      | .saturated => [(substrateSaturatedType,
          encodeSubstrateSaturated cycle nextConsecutive (b.triggeringAxis cost))]
      | .normal => [(substrateNormalRestoredType, encodeSubstrateNormalRestored cycle)]
      | _ => []
    else []
  (newStage, events)

/-- The counters, the stage and the cooldown of the proposal, on coming to a stage. -/
def Metabolism.comeTo (m : Metabolism env) (newStage : SaturationStage) : Metabolism env :=
  let server := { m.server with saturationStage := newStage }
  match newStage with
  | .postEligibility =>
    { m with
      server
      postEligibilityConsecutiveCycles := saturatingAdd m.postEligibilityConsecutiveCycles 1
      saturatedConsecutiveCycles := 0 }
  | .saturated =>
    { m with
      server
      postEligibilityConsecutiveCycles := saturatingAdd m.postEligibilityConsecutiveCycles 1
      saturatedConsecutiveCycles := saturatingAdd m.saturatedConsecutiveCycles 1 }
  | .normal => ⟨server, 0, 0, none⟩
  | .preEligibility => ⟨server, 0, 0, m.lastSaturationMortalityProposalAtCycle⟩

def Metabolism.countExhausted (m : Metabolism env) (anyExceeded : Bool) : Metabolism env :=
  { m with
    server := { m.server with
      consecutiveBudgetExhaustedCycles :=
        if anyExceeded then saturatingAdd m.server.consecutiveBudgetExhaustedCycles 1 else 0 } }

def escalateSaturationToP7 : Metabolic env PUnit := do
  let m ← get
  let cycle := m.server.cycleCounter
  Metabolic.dropping (emitSubstrateEvent saturationProposalType
    (encodeSaturationProposal m.saturatedConsecutiveCycles
      b.sustainedSaturationMortalityCycleThreshold cycle))
  modify fun m => { m with lastSaturationMortalityProposalAtCycle := some cycle }

def budgetExhaustedCooldownCycles : UInt64 := 10

/-- `state.last_budget_exhausted_per_axis.insert(axis, cycle)` -/
def Metabolism.noteExhausted (axis : String) (cycle : UInt64) (m : Metabolism env) :
    Metabolism env :=
  { m with
    server := { m.server with
      lastBudgetExhaustedPerAxis :=
        OrdMap.insert utf8 axis cycle m.server.lastBudgetExhaustedPerAxis } }

/-- `emit_axis_exhaustion`; the flag is what `MYCO_TEST_SUPPRESS_BUDGET_EXHAUSTED_EMIT` says. -/
def emitAxisExhaustion (suppressEmitForTest : Bool) (a : CostAxis) : Metabolic env PUnit := do
  let m ← get
  let cycle := m.server.cycleCounter
  let cooldownOk : Bool := match OrdMap.get a.name m.server.lastBudgetExhaustedPerAxis with
    | none => true
    | some prior => saturatingSub cycle prior ≥ budgetExhaustedCooldownCycles
  if !suppressEmitForTest && cooldownOk then
    Metabolic.dropping (emitSubstrateEvent (budgetExhaustedPrefix ++ a.name)
      (encodeBudgetExhausted a.name a.current a.budget cycle))
    modify (·.noteExhausted a.name cycle)

def c53CheckWindowCycles : UInt64 := 50

def c53DetectorId : String := "C53_budget_exhausted_silent"

/-- The log says within the window that the axis is exhausted. -/
def Documented (m : Metabolism env) (a : CostAxis) : Prop :=
  ∃ n ∈ m.server.nodes, n.nodeType = budgetExhaustedPrefix ++ a.name ∧
    n.createdAtCycle ≥ saturatingSub m.server.cycleCounter c53CheckWindowCycles

instance (m : Metabolism env) (a : CostAxis) : Decidable (Documented m a) :=
  inferInstanceAs (Decidable (∃ n ∈ m.server.nodes, _))

def c53Evidence (axis : String) (cycle : UInt64) : String :=
  s!"axis={axis} exceeded budget at cycle {cycle.toNat} but NO budget_exhausted:{axis} event " ++
    s!"in DAG within last {c53CheckWindowCycles.toNat} cycles (window_start={
      (saturatingSub cycle c53CheckWindowCycles).toNat}) — substrate is hiding cost from " ++
    "operator; primary emission path broken OR was bypassed"

/-- One turn of the loop of the detector. -/
def detectSilence (a : CostAxis) : Metabolic env PUnit := do
  let m ← get
  if ¬ Documented m a then
    Metabolic.dropping (emitImmuneSporocarp c53DetectorId "budget_exhausted_silent"
      (c53Evidence a.name m.server.cycleCounter))

def proposeCompression (triggeringAxis : String) (rule : CompressionRule) :
    Metabolic env PUnit := do
  let m ← get
  Metabolic.dropping (emitSubstrateEvent (compressionProposedPrefix ++ rule.ruleId)
    (encodeCompressionProposed rule.ruleId m.server.cycleCounter triggeringAxis 0))

def applyP11cAndEmit (suppressEmitForTest : Bool) (cost : CostSnapshot) : Metabolic env PUnit := do
  modify (·.countExhausted (b.anyExceeded cost))
  let m ← get
  let (newStage, transitionEvents) := p11cAdvanceStage b m cost (b.anyExceeded cost)
  let prevStage := m.server.saturationStage
  modify (·.comeTo newStage)
  transitionEvents.forM fun e => Metabolic.dropping (emitSubstrateEvent e.1 e.2)
  let m ← get
  if newStage = .saturated ∧
      m.saturatedConsecutiveCycles ≥ b.sustainedSaturationMortalityCycleThreshold ∧
      m.lastSaturationMortalityProposalAtCycle = none then
    escalateSaturationToP7 b
  (b.exceededAxes cost).forM (emitAxisExhaustion suppressEmitForTest)
  (b.exceededAxes cost).forM detectSilence
  if newStage = .postEligibility ∧ prevStage ≠ .postEligibility then
    seedCompressionRuleRegistry.forM (proposeCompression (b.triggeringAxis cost))

/-! ### What the parts do -/

variable {m m' m'' : Metabolism env} {s s' : ServerState env}

def Clashed (m : Metabolism env) : Prop := Collided m.server

/-- The cycle and what the stage machine remembers are the same. -/
structure Frames (m m' : Metabolism env) : Prop where
  cycle : m'.server.cycleCounter = m.server.cycleCounter
  stage : m'.server.saturationStage = m.server.saturationStage
  post : m'.postEligibilityConsecutiveCycles = m.postEligibilityConsecutiveCycles
  saturated : m'.saturatedConsecutiveCycles = m.saturatedConsecutiveCycles
  proposal : m'.lastSaturationMortalityProposalAtCycle = m.lastSaturationMortalityProposalAtCycle

theorem Frames.trans (h : Frames m m') (h' : Frames m' m'') : Frames m m'' :=
  ⟨h'.cycle.trans h.cycle, h'.stage.trans h.stage, h'.post.trans h.post,
    h'.saturated.trans h.saturated, h'.proposal.trans h.proposal⟩

/-- Nodes are appended whose types are so, and nothing else that matters here changes. -/
structure Logs (Q : List String → Prop) (m m' : Metabolism env) : Prop where
  frames : Frames m m'
  table : m'.server.lastBudgetExhaustedPerAxis = m.server.lastBudgetExhaustedPerAxis
  nodes : ∃ es, m'.server.nodes = m.server.nodes ++ es ∧ Q (es.map DagNode.nodeType)

theorem Logs.nil {Q : List String → Prop} (h : Q []) : Logs Q m m :=
  ⟨⟨rfl, rfl, rfl, rfl, rfl⟩, rfl, [], (List.append_nil _).symm, h⟩

theorem Logs.trans {P Q R : List String → Prop} (h : Logs P m m') (h' : Logs Q m' m'')
    (hR : ∀ xs ys, P xs → Q ys → R (xs ++ ys)) : Logs R m m'' := by
  obtain ⟨es, hn, hP⟩ := h.nodes
  obtain ⟨fs, hn', hQ⟩ := h'.nodes
  refine ⟨h.frames.trans h'.frames, h'.table.trans h.table, es ++ fs, ?_, ?_⟩
  · rw [hn', hn, List.append_assoc]
  · rw [List.map_append]
    exact hR _ _ hP hQ

/-- The same, and the clock is not read, which every alarm does. -/
def LogsQuietly (Q : List String → Prop) (m m' : Metabolism env) : Prop :=
  Logs Q m m' ∧ m'.server.readings = m.server.readings

theorem LogsQuietly.trans {P Q R : List String → Prop} (h : LogsQuietly P m m')
    (h' : LogsQuietly Q m' m'') (hR : ∀ xs ys, P xs → Q ys → R (xs ++ ys)) :
    LogsQuietly R m m'' :=
  ⟨h.1.trans h'.1 hR, h'.2.trans h.2⟩

theorem insertNode_eq {what : String} {c : Insertion} {r : Except SubstrateError NodeHash}
    (h : (insertNode what c).exec s = some (r, s')) : ∃ ledger, s' = { s with ledger } := by
  rw [exec_insertNode] at h
  split at h
  · rw [Option.some.injEq, Prod.mk.injEq] at h
    exact ⟨_, h.2.symm⟩
  · cases h

theorem emitSubstrateEvent_eq {nodeType : String} {content : Bytes}
    {r : Except SubstrateError NodeHash}
    (h : (emitSubstrateEvent nodeType content).exec s = some (r, s')) :
    ∃ ledger cultivationState, s' = { s with ledger, cultivationState } := by
  rw [emitSubstrateEvent, Prog.exec_get_bind] at h
  rcases Prog.exec_bind_eq_some.1 h with ⟨e, h1, -⟩ | ⟨hash, t, h1, h2⟩
  · obtain ⟨ledger, rfl⟩ := insertNode_eq h1
    exact ⟨ledger, s.cultivationState, rfl⟩
  · cases h2
    obtain ⟨ledger, rfl⟩ := insertNode_eq h1
    unfold ServerState.refreshCultivation
    split
    · exact ⟨ledger, _, rfl⟩
    · exact ⟨ledger, s.cultivationState, rfl⟩

theorem emitFresh_eq {detectorId detectorName evidence : String} {t : Int64} {k : UInt64}
    {r : Except SubstrateError NodeHash}
    (h : (emitFresh detectorId detectorName evidence t k).exec s = some (r, s')) :
    ∃ ledger immuneEmissionState, s' = { s with ledger, immuneEmissionState } := by
  rw [emitFresh, Prog.exec_get_bind] at h
  rcases Prog.exec_bind_eq_some.1 h with ⟨e, h1, -⟩ | ⟨hash, t, h1, h2⟩
  · obtain ⟨ledger, rfl⟩ := insertNode_eq h1
    exact ⟨ledger, s.immuneEmissionState, rfl⟩
  · cases h2
    obtain ⟨ledger, rfl⟩ := insertNode_eq h1
    exact ⟨ledger, _, rfl⟩

/-- An alarm takes a reading, and writes nothing but the log and what it remembers of itself. -/
theorem emitImmuneSporocarp_eq {detectorId detectorName evidence : String}
    {r : Except SubstrateError NodeHash}
    (h : (emitImmuneSporocarp detectorId detectorName evidence).exec s = some (r, s')) :
    ∃ ledger immuneEmissionState,
      s' = { s with ledger, immuneEmissionState, readings := s.readings + 1 } := by
  rw [emitImmuneSporocarp, readClock, bind_assoc, Prog.exec_get_bind, bind_assoc,
    Prog.exec_modify_bind, pure_bind, Prog.exec_get_bind] at h
  cases hp : OrdMap.get detectorId s.immuneEmissionState with
  | none =>
    simp only [hp] at h
    exact emitFresh_eq h
  | some prior =>
    simp only [hp] at h
    split at h
    · cases h
      exact ⟨s.ledger, _, rfl⟩
    · exact emitFresh_eq h

variable {Q : List String → Prop}

theorem does_ite {σ ε α : Type} {bad : σ → Prop} {R : σ → σ → Prop} {c : Prop} [Decidable c]
    {x y : Prog σ ε α} (hx : c → Does bad R x) (hy : ¬ c → Does bad R y) :
    Does bad R (if c then x else y) := by
  split
  · exact hx ‹_›
  · exact hy ‹_›

/-- What is done to the server and logged there is logged. -/
theorem does_dropped {α : Type} {R : ServerState env → ServerState env → Prop}
    {T : Metabolism env → Metabolism env → Prop} {p : Handler env α}
    (h : Within (Barring R) p) (hT : ∀ m s', R m.server s' → T m { m with server := s' }) :
    Does Clashed T (Metabolic.dropping p) :=
  does_bind (S := Eq) (does_zoom (does_attempt h) (fun _ => Iff.rfl) (fun _ _ => rfl) hT)
    (fun _ => does_pure fun _ => rfl) fun _ _ _ hT he => he ▸ hT

/-- The event that is appended. -/
structure Emitted (nodeType : String) (m m' : Metabolism env) : Prop where
  logs : LogsQuietly (· = [nodeType]) m m'
  cycle : ∃ n ∈ m'.server.nodes, n.nodeType = nodeType ∧ n.createdAtCycle = m.server.cycleCounter

theorem does_event {nodeType : String} {content : Bytes} (ht : nodeType ≠ "") :
    Does Clashed (Emitted nodeType)
      (Metabolic.dropping (emitSubstrateEvent nodeType content : Handler env NodeHash)) := by
  refine does_dropped (R := fun s s' => Appends ⟨s.tipParents, nodeType, s.cycleCounter, content⟩
    s s' ∧ ∃ ledger cultivationState, s' = { s with ledger, cultivationState }) ?_ ?_
  · exact fun s r s' he => (emitSubstrateEvent_tip ht he).imp fun h =>
      ⟨h, emitSubstrateEvent_eq he⟩
  · rintro m s' ⟨happ, ledger, cultivationState, rfl⟩
    refine ⟨⟨⟨⟨rfl, rfl, rfl, rfl, rfl⟩, rfl, _, happ.nodes, rfl⟩, rfl⟩,
      Insertion.node env.blake3 ⟨m.server.tipParents, nodeType, m.server.cycleCounter, content⟩,
      ?_, rfl, rfl⟩
    rw [show ServerState.nodes _ = _ from happ.nodes]
    exact List.mem_append_right _ (List.mem_singleton_self _)

theorem does_events {es : List (String × Bytes)} (h : ∀ e ∈ es, e.1 ≠ "") :
    Does Clashed (LogsQuietly (· = es.map Prod.fst))
      (es.forM fun e => Metabolic.dropping (emitSubstrateEvent e.1 e.2) : Metabolic env PUnit) := by
  induction es with
  | nil => exact does_pure fun _ => ⟨.nil rfl, rfl⟩
  | cons e es ih =>
    rw [List.forall_mem_cons] at h
    refine does_bind (does_event h.1) (fun _ => ih h.2) fun _ _ _ he hes => ?_
    exact he.logs.trans hes fun _ _ hx hy => by rw [hx, hy]; rfl

/-! ### The parts of a snapshot -/

/-- What the table of an axis says is in the log. -/
def InLog (m : Metabolism env) : Prop :=
  ∀ axis cycle, OrdMap.get axis m.server.lastBudgetExhaustedPerAxis = some cycle →
    ∃ n ∈ m.server.nodes, n.nodeType = budgetExhaustedPrefix ++ axis ∧ n.createdAtCycle = cycle

/-- By the table, the axis was emitted not long ago. -/
def CoolingDown (m : Metabolism env) (a : CostAxis) : Prop :=
  ∃ prior, OrdMap.get a.name m.server.lastBudgetExhaustedPerAxis = some prior ∧
    ¬ saturatingSub m.server.cycleCounter prior ≥ budgetExhaustedCooldownCycles

/-- The cooldown of an axis is shorter than the window of the detector. -/
theorem documented_of_coolingDown {a : CostAxis} (h : CoolingDown m a) (hlog : InLog m) :
    Documented m a := by
  obtain ⟨prior, hget, hcool⟩ := h
  obtain ⟨n, hn, htype, rfl⟩ := hlog a.name prior hget
  refine ⟨n, hn, htype, ?_⟩
  have hten : budgetExhaustedCooldownCycles.toNat = 10 := by decide
  have hfifty : c53CheckWindowCycles.toNat = 50 := by decide
  rw [ge_iff_le, UInt64.le_iff_toNat_le, saturatingSub_toNat] at hcool ⊢
  omega

theorem inLog_of_append {es : List DagNode} (hnodes : m'.server.nodes = m.server.nodes ++ es)
    (htable : m'.server.lastBudgetExhaustedPerAxis = m.server.lastBudgetExhaustedPerAxis)
    (hlog : InLog m) : InLog m' := by
  intro axis cycle hget
  rw [htable] at hget
  obtain ⟨n, hn, hn'⟩ := hlog axis cycle hget
  exact ⟨n, hnodes ▸ List.mem_append_left es hn, hn'⟩

theorem Logs.inLog (h : Logs Q m m') (hlog : InLog m) : InLog m' := by
  obtain ⟨es, hes, -⟩ := h.nodes
  exact inLog_of_append hes h.table hlog

/-- What the loop over the exhausted axes does. -/
structure Exhausts (suppressEmitForTest : Bool) (axes : List CostAxis) (m m' : Metabolism env) :
    Prop where
  frames : Frames m m'
  readings : m'.server.readings = m.server.readings
  nodes : ∃ es, m'.server.nodes = m.server.nodes ++ es ∧
    ∀ e ∈ es, startsWith budgetExhaustedPrefix e.nodeType
  inLog : InLog m → InLog m'
  cooling : ∀ a, CoolingDown m a → CoolingDown m' a
  cooled : suppressEmitForTest = false → ∀ a ∈ axes, CoolingDown m' a

theorem Exhausts.nil {f : Bool} {as : List CostAxis}
    (h : f = false → ∀ a ∈ as, CoolingDown m a) : Exhausts f as m m :=
  ⟨⟨rfl, rfl, rfl, rfl, rfl⟩, rfl, ⟨[], by simp⟩, id, fun _ => id, h⟩

theorem Exhausts.cons {f : Bool} {a : CostAxis} {as : List CostAxis} (h : Exhausts f [a] m m')
    (h' : Exhausts f as m' m'') : Exhausts f (a :: as) m m'' := by
  obtain ⟨es, hes, ht⟩ := h.nodes
  obtain ⟨es', hes', ht'⟩ := h'.nodes
  refine ⟨h.frames.trans h'.frames, h'.readings.trans h.readings, ⟨es ++ es', ?_, ?_⟩,
    fun hl => h'.inLog (h.inLog hl), fun x hx => h'.cooling x (h.cooling x hx), fun hf => ?_⟩
  · rw [hes', hes, List.append_assoc]
  · exact fun e he => (List.mem_append.1 he).elim (ht e) (ht' e)
  · rw [List.forall_mem_cons]
    exact ⟨h'.cooling a (h.cooled hf a (List.mem_singleton_self a)), h'.cooled hf⟩

theorem prefixed_ne {axis : String} : budgetExhaustedPrefix ++ axis ≠ "" :=
  @ne_empty_of_startsWith _ genesisPrefix _ startsWith_append (by decide)

theorem get_noteExhausted {axis x : String} {cycle : UInt64} :
    OrdMap.get x (m.noteExhausted axis cycle).server.lastBudgetExhaustedPerAxis =
      if x = axis then some cycle else OrdMap.get x m.server.lastBudgetExhaustedPerAxis :=
  OrdMap.get_insert utf8_injective

/-- An axis that is emitted and noted. -/
theorem exhausts_of_emitted {f : Bool} {a : CostAxis}
    (h : Emitted (budgetExhaustedPrefix ++ a.name) m m') :
    Exhausts f [a] m (m'.noteExhausted a.name m.server.cycleCounter) := by
  obtain ⟨⟨hlogs, hread⟩, n, hn, htype, hat⟩ := h
  obtain ⟨es, hes, ht⟩ := hlogs.nodes
  obtain ⟨hcycle, hstage, hpost, hsat, hlast⟩ := hlogs.frames
  have hcool : ¬ saturatingSub m'.server.cycleCounter m.server.cycleCounter ≥
      budgetExhaustedCooldownCycles := by
    have hten : budgetExhaustedCooldownCycles.toNat = 10 := by decide
    rw [hcycle, ge_iff_le, UInt64.le_iff_toNat_le, saturatingSub_toNat]
    omega
  refine ⟨⟨hcycle, hstage, hpost, hsat, hlast⟩, hread, ⟨es, hes, fun e he => ?_⟩,
    fun hlog axis cycle hget => ?_, fun x hx => ?_, fun _ x hx => ?_⟩
  · have := List.mem_map_of_mem (f := DagNode.nodeType) he
    rw [ht, List.mem_singleton] at this
    exact this ▸ startsWith_append
  · rw [get_noteExhausted] at hget
    split at hget
    · rename_i haxis
      cases hget
      subst haxis
      exact ⟨n, hn, htype, hat⟩
    · exact hlogs.inLog hlog axis cycle hget
  · obtain ⟨prior, hget, hx⟩ := hx
    unfold CoolingDown
    rw [get_noteExhausted]
    split
    · exact ⟨_, rfl, hcool⟩
    · exact ⟨prior, hlogs.table.symm ▸ hget, hcycle.symm ▸ hx⟩
  · cases List.mem_singleton.1 hx
    exact ⟨_, by rw [get_noteExhausted, if_pos rfl], hcool⟩

theorem does_emitAxisExhaustion {f : Bool} {a : CostAxis} :
    Does Clashed (Exhausts f [a]) (emitAxisExhaustion f a : Metabolic env PUnit) := by
  refine does_get_bind (Q := fun m s s' => s = m → Exhausts f [a] s s') (fun m => ?_)
    fun m m' h => h rfl
  refine does_ite (fun _ => ?_) fun hc => ?_
  · refine does_bind (does_event prefixed_ne) (fun _ => does_modify
      (R := fun u u' : Metabolism env => u' = u.noteExhausted a.name m.server.cycleCounter)
      (fun _ => id) fun _ => rfl) ?_
    rintro _ u _ h rfl rfl
    exact exhausts_of_emitted h
  · refine does_pure fun s hs => Exhausts.nil fun hf x hx => ?_
    subst hs hf
    cases List.mem_singleton.1 hx
    cases hget : OrdMap.get a.name s.server.lastBudgetExhaustedPerAxis with
    | none => simp [hget] at hc
    | some prior => exact ⟨prior, hget, by simpa [hget] using hc⟩

theorem does_exhaustion {f : Bool} {as : List CostAxis} :
    Does Clashed (Exhausts f as) (as.forM (emitAxisExhaustion f) : Metabolic env PUnit) := by
  induction as with
  | nil => exact does_pure fun _ => .nil (by simp)
  | cons a as ih =>
    exact does_bind does_emitAxisExhaustion (fun _ => ih) fun _ _ _ h h' => h.cons h'

/-- What the detector does: nothing, when all that is exhausted is in the log. -/
structure Detects (axes : List CostAxis) (m m' : Metabolism env) : Prop where
  logs : Logs (∀ t ∈ ·, startsWith immunePrefix t) m m'
  nothing : (∀ a ∈ axes, Documented m a) → m' = m

theorem does_alarm (evidence : String) :
    Does Clashed (Logs (∀ t ∈ ·, startsWith immunePrefix t))
      (Metabolic.dropping (emitImmuneSporocarp c53DetectorId "budget_exhausted_silent" evidence :
        Handler env NodeHash)) := by
  refine does_dropped (R := fun s s' => Adds (fun n => startsWith immunePrefix n.nodeType) s s' ∧
    ∃ ledger immuneEmissionState,
      s' = { s with ledger, immuneEmissionState, readings := s.readings + 1 }) ?_ ?_
  · exact fun s r s' he => (quiet_emitImmuneSporocarp s r s' he).imp fun _ =>
      ⟨adds_emitImmuneSporocarp (fun _ h => h) s r s' he, emitImmuneSporocarp_eq he⟩
  · rintro m s' ⟨hadds, ledger, immuneEmissionState, rfl⟩
    obtain ⟨es, hes, ht⟩ := hadds.nodes
    refine ⟨⟨rfl, rfl, rfl, rfl, rfl⟩, rfl, es, hes, ?_⟩
    simpa using ht

theorem does_detectSilence {a : CostAxis} :
    Does Clashed (Detects [a]) (detectSilence a : Metabolic env PUnit) := by
  refine does_get_bind (Q := fun m s s' => s = m → Detects [a] s s') (fun m => ?_)
    fun m m' h => h rfl
  by_cases hdoc : Documented m a
  · rw [if_neg (not_not.2 hdoc)]
    exact does_pure fun s _ => ⟨.nil (by simp), fun _ => rfl⟩
  · rw [if_pos hdoc]
    refine (does_alarm (c53Evidence a.name m.server.cycleCounter)).mono fun s s' h hs => ⟨h, ?_⟩
    subst hs
    exact fun hall => absurd (hall a (List.mem_singleton_self a)) hdoc

theorem does_detection {as : List CostAxis} :
    Does Clashed (Detects as) (as.forM detectSilence : Metabolic env PUnit) := by
  induction as with
  | nil => exact does_pure fun _ => ⟨.nil (by simp), fun _ => rfl⟩
  | cons a as ih =>
    refine does_bind does_detectSilence (fun _ => ih) fun m u m' h h' => ⟨?_, fun hd => ?_⟩
    · exact h.logs.trans h'.logs fun xs ys hx hy t ht =>
        (List.mem_append.1 ht).elim (hx t) (hy t)
    · rw [List.forall_mem_cons] at hd
      have hu := h.nothing (by simpa using hd.1)
      subst hu
      exact h'.nothing hd.2

/-- The time has come for the proposal. -/
def DueForP7 (m : Metabolism env) : Prop :=
  m.server.saturationStage = .saturated ∧
    m.saturatedConsecutiveCycles ≥ b.sustainedSaturationMortalityCycleThreshold ∧
    m.lastSaturationMortalityProposalAtCycle = none

/-- What the escalation does. -/
structure Proposes (m m' : Metabolism env) : Prop where
  due : DueForP7 b m → ∃ u, LogsQuietly (· = [saturationProposalType]) m u ∧
    m' = { u with lastSaturationMortalityProposalAtCycle := some m.server.cycleCounter }
  notDue : ¬ DueForP7 b m → m' = m

theorem does_escalateSaturationToP7 :
    Does Clashed (fun m m' => ∃ u, LogsQuietly (· = [saturationProposalType]) m u ∧
      m' = { u with lastSaturationMortalityProposalAtCycle := some m.server.cycleCounter })
      (escalateSaturationToP7 b : Metabolic env PUnit) := by
  refine does_get_bind (Q := fun m s s' => s = m → ∃ u,
    LogsQuietly (· = [saturationProposalType]) s u ∧
      s' = { u with lastSaturationMortalityProposalAtCycle := some m.server.cycleCounter })
    (fun m => ?_) fun m m' h => h rfl
  refine does_bind (does_event (by decide)) (fun _ => does_modify (fun _ => id) fun _ => rfl) ?_
  rintro s u _ h rfl -
  exact ⟨u, h.logs, rfl⟩

theorem does_proposals {axis : String} {rules : List CompressionRule} :
    Does Clashed (LogsQuietly (∀ t ∈ ·, startsWith compressionProposedPrefix t))
      (rules.forM (proposeCompression axis) : Metabolic env PUnit) := by
  induction rules with
  | nil => exact does_pure fun _ => ⟨.nil (by simp), rfl⟩
  | cons rule rules ih =>
    refine does_bind (R := LogsQuietly (∀ t ∈ ·, startsWith compressionProposedPrefix t))
      (does_get_bind (Q := fun _ => _) (fun m => ?_) fun _ _ h => h) (fun _ => ih)
      fun _ _ _ h h' => h.trans h' fun xs ys hx hy t ht =>
        (List.mem_append.1 ht).elim (hx t) (hy t)
    refine (does_event (@ne_empty_of_startsWith _ genesisPrefix _ startsWith_append
      (by decide))).mono fun _ _ h => ?_
    refine ⟨⟨h.logs.1.frames, h.logs.1.table, ?_⟩, h.logs.2⟩
    obtain ⟨es, hes, ht⟩ := h.logs.1.nodes
    refine ⟨es, hes, ht ▸ fun t h => ?_⟩
    exact List.mem_singleton.1 h ▸ startsWith_append

/-! ### A snapshot -/

/-- What is emitted on entering a stage. -/
def entryTypes (prevStage newStage : SaturationStage) : List String :=
  if prevStage = newStage then []
  else match newStage with
    | .saturated => [substrateSaturatedType]
    | .normal => [substrateNormalRestoredType]
    | _ => []

/-- The stage that a snapshot comes to. -/
def Metabolism.nextStage (m : Metabolism env) (cost : CostSnapshot) : SaturationStage :=
  if !b.anyExceeded cost then .normal
  else if m.server.cycleCounter < b.preEligibilityCycleFloor then .preEligibility
  else if saturatingAdd m.postEligibilityConsecutiveCycles 1 ≥
    b.sustainedSaturationCycleThreshold then .saturated
  else .postEligibility

/-- The counters are up to date, and nothing has been emitted. -/
def Metabolism.stocked (m : Metabolism env) (cost : CostSnapshot) : Metabolism env :=
  (m.countExhausted (b.anyExceeded cost)).comeTo (m.nextStage b cost)

theorem comeTo_stage {stage : SaturationStage} :
    (m.comeTo stage).server.saturationStage = stage := by
  cases stage <;> rfl

theorem p11cAdvanceStage_types {cost : CostSnapshot} :
    (p11cAdvanceStage b (m.countExhausted (b.anyExceeded cost)) cost
      (b.anyExceeded cost)).2.map Prod.fst =
    entryTypes m.server.saturationStage (m.nextStage b cost) := by
  show List.map Prod.fst (if m.server.saturationStage ≠ m.nextStage b cost then
    (match m.nextStage b cost with | .saturated => _ | .normal => _ | _ => _) else []) = _
  unfold entryTypes
  by_cases h : m.server.saturationStage = m.nextStage b cost
  · rw [if_neg (not_not.2 h), if_pos h]
    rfl
  · rw [if_pos h, if_neg h]
    cases m.nextStage b cost <;> rfl

theorem entryTypes_ne {prev new : SaturationStage} : ∀ t ∈ entryTypes prev new, t ≠ "" := by
  cases prev <;> cases new <;> decide

/-- What a snapshot does, one thing after the other. -/
def Snapshot (suppressEmitForTest : Bool) (cost : CostSnapshot) (m m' : Metabolism env) : Prop :=
  Relation.Comp
    (LogsQuietly (· = entryTypes m.server.saturationStage (m.nextStage b cost)))
    (Relation.Comp (Proposes b)
      (Relation.Comp (Exhausts suppressEmitForTest (b.exceededAxes cost))
        (Relation.Comp (Detects (b.exceededAxes cost))
          (LogsQuietly (∀ t ∈ ·, startsWith compressionProposedPrefix t)))))
    (m.stocked b cost) m'

theorem comeTo_ledger {stage : SaturationStage} :
    (m.comeTo stage).server.ledger = m.server.ledger := by
  cases stage <;> rfl

/-- What comes after the transition events. -/
abbrev Rest (f : Bool) (cost : CostSnapshot) : Metabolism env → Metabolism env → Prop :=
  Relation.Comp (Exhausts f (b.exceededAxes cost))
    (Relation.Comp (Detects (b.exceededAxes cost))
      (LogsQuietly (∀ t ∈ ·, startsWith compressionProposedPrefix t)))

theorem does_comp {σ ε α β : Type} {bad : σ → Prop} {R S : σ → σ → Prop} {x : Prog σ ε α}
    {f : α → Prog σ ε β} (hx : Does bad R x) (hf : ∀ a, Does bad S (f a)) :
    Does bad (Relation.Comp R S) (x >>= f) :=
  does_bind hx hf fun _ t _ h h' => ⟨t, h, h'⟩

section

variable {f : Bool} {cost : CostSnapshot} {newStage prevStage : SaturationStage}

theorem does_rest : Does Clashed (Rest b f cost) (do
    (b.exceededAxes cost).forM (emitAxisExhaustion f)
    (b.exceededAxes cost).forM detectSilence
    if newStage = .postEligibility ∧ prevStage ≠ .postEligibility then
      seedCompressionRuleRegistry.forM (proposeCompression (b.triggeringAxis cost)) :
    Metabolic env PUnit) :=
  does_comp does_exhaustion fun _ => does_comp does_detection fun _ =>
    does_ite (fun _ => does_proposals) fun _ => does_pure fun _ => ⟨.nil (by simp), rfl⟩

theorem does_escalation {rest : Metabolic env PUnit} (hrest : Does Clashed (Rest b f cost) rest) :
    Does Clashed (fun m m' => m.server.saturationStage = newStage →
      Relation.Comp (Proposes b) (Rest b f cost) m m') (get >>= fun m =>
        if newStage = .saturated ∧
            m.saturatedConsecutiveCycles ≥ b.sustainedSaturationMortalityCycleThreshold ∧
            m.lastSaturationMortalityProposalAtCycle = none then
          escalateSaturationToP7 b >>= fun _ => rest
        else rest : Metabolic env PUnit) := by
  refine does_get_bind (Q := fun u m m' => m = u → m.server.saturationStage = newStage →
    Relation.Comp (Proposes b) (Rest b f cost) m m')
    (fun u => does_ite (fun hdue => ?_) fun hdue => ?_) fun _ _ h => h rfl
  · refine does_bind (does_escalateSaturationToP7 b) (fun _ => hrest) ?_
    rintro m v m' hv hm' rfl rfl
    exact ⟨v, ⟨fun _ => hv, fun hn => absurd hdue hn⟩, hm'⟩
  · refine hrest.mono ?_
    rintro m m' hm' rfl rfl
    exact ⟨m, ⟨fun h => absurd h hdue, fun _ => rfl⟩, hm'⟩

theorem does_applyP11cAndEmit :
    Does Clashed (Snapshot b f cost) (applyP11cAndEmit b f cost : Metabolic env PUnit) := by
  intro m r m' he
  rw [applyP11cAndEmit, Prog.exec_modify_bind, Prog.exec_get_bind, Prog.exec_modify_bind] at he
  have htypes := @p11cAdvanceStage_types _ b m cost
  have hdoes := does_bind (@does_events env _ fun e he =>
    entryTypes_ne e.1 (htypes ▸ List.mem_map_of_mem he)) (fun _ => does_escalation b
      (@does_rest _ b f cost (m.nextStage b cost) m.server.saturationStage))
    (T := fun s s' => s = m.stocked b cost → Snapshot b f cost m s') (by
      rintro s t s' hst hts' rfl
      exact ⟨t, htypes ▸ hst, hts' (hst.1.frames.stage.trans comeTo_stage)⟩) _ _ _ he
  refine ⟨fun hc => hdoes.stays ?_, fun hc => ?_⟩
  · rwa [Clashed, Collided, comeTo_ledger]
  · exact (hdoes.holds hc).imp id fun h => h rfl

end

/-! ### What is left after a snapshot -/

/-- Events of a snapshot that the stages have no part in. -/
def Marginal (t : String) : Prop :=
  startsWith budgetExhaustedPrefix t ∨ startsWith immunePrefix t ∨
    startsWith compressionProposedPrefix t

instance (t : String) : Decidable (Marginal t) := inferInstanceAs (Decidable (_ ∨ _))

instance : Decidable (DueForP7 b m) := inferInstanceAs (Decidable (_ ∧ _))

/-- What is emitted for a proposal that is due. -/
def proposalTypes (m : Metabolism env) : List String :=
  if DueForP7 b m then [saturationProposalType] else []

structure Stocktaken (f : Bool) (cost : CostSnapshot) (m m' : Metabolism env) : Prop where
  cycle : m'.server.cycleCounter = m.server.cycleCounter
  stage : m'.server.saturationStage = m.nextStage b cost
  post : m'.postEligibilityConsecutiveCycles =
    (m.stocked b cost).postEligibilityConsecutiveCycles
  saturated : m'.saturatedConsecutiveCycles = (m.stocked b cost).saturatedConsecutiveCycles
  proposal : m'.lastSaturationMortalityProposalAtCycle.isSome = true ↔
    DueForP7 b (m.stocked b cost) ∨
      (m.stocked b cost).lastSaturationMortalityProposalAtCycle.isSome = true
  nodes : ∃ es rest, m'.server.nodes = m.server.nodes ++ es ∧
    es.map DagNode.nodeType = entryTypes m.server.saturationStage (m.nextStage b cost) ++
      proposalTypes b (m.stocked b cost) ++ rest ∧ (∀ t ∈ rest, Marginal t) ∧
    (f = false → InLog m → ∀ t ∈ rest, ¬ startsWith immunePrefix t)
  inLog : InLog m → InLog m'
  quiet : f = false → InLog m → m'.server.readings = m.server.readings

theorem Proposes.frames (h : Proposes b m m') : m'.server.cycleCounter = m.server.cycleCounter ∧
    m'.server.saturationStage = m.server.saturationStage ∧
    m'.postEligibilityConsecutiveCycles = m.postEligibilityConsecutiveCycles ∧
    m'.saturatedConsecutiveCycles = m.saturatedConsecutiveCycles ∧
    m'.server.lastBudgetExhaustedPerAxis = m.server.lastBudgetExhaustedPerAxis ∧
    m'.server.readings = m.server.readings := by
  by_cases hdue : DueForP7 b m
  · obtain ⟨u, hu, rfl⟩ := h.due hdue
    exact ⟨hu.1.frames.cycle, hu.1.frames.stage, hu.1.frames.post, hu.1.frames.saturated,
      hu.1.table, hu.2⟩
  · rw [h.notDue hdue]
    exact ⟨rfl, rfl, rfl, rfl, rfl, rfl⟩

theorem Proposes.nodes (h : Proposes b m m') :
    ∃ es, m'.server.nodes = m.server.nodes ++ es ∧
      es.map DagNode.nodeType = proposalTypes b m := by
  unfold proposalTypes
  by_cases hdue : DueForP7 b m
  · obtain ⟨u, hu, rfl⟩ := h.due hdue
    rw [if_pos hdue]
    exact hu.1.nodes
  · rw [h.notDue hdue, if_neg hdue]
    exact ⟨[], (List.append_nil _).symm, rfl⟩

theorem Proposes.proposal (h : Proposes b m m') :
    m'.lastSaturationMortalityProposalAtCycle.isSome = true ↔
      DueForP7 b m ∨ m.lastSaturationMortalityProposalAtCycle.isSome = true := by
  by_cases hdue : DueForP7 b m
  · obtain ⟨u, hu, rfl⟩ := h.due hdue
    exact ⟨fun _ => .inl hdue, fun _ => rfl⟩
  · rw [h.notDue hdue]
    exact ⟨.inr, fun h => h.resolve_left hdue⟩

theorem stocked_server {cost : CostSnapshot} : ∃ n, (m.stocked b cost).server =
    { m.server with
      consecutiveBudgetExhaustedCycles := n
      saturationStage := m.nextStage b cost } := by
  unfold Metabolism.stocked
  cases m.nextStage b cost <;> exact ⟨_, rfl⟩

theorem Snapshot.stocktaken {f : Bool} {cost : CostSnapshot} (h : Snapshot b f cost m m') :
    Stocktaken b f cost m m' := by
  obtain ⟨u, ⟨hu, hureads⟩, v, hv, w, hw, x, hx, ⟨hm', hmreads⟩⟩ := h
  obtain ⟨es1, hes1, ht1⟩ := hu.nodes
  obtain ⟨es2, hes2, ht2⟩ := hv.nodes
  obtain ⟨es3, hes3, ht3⟩ := hw.nodes
  obtain ⟨es4, hes4, ht4⟩ := hx.logs.nodes
  obtain ⟨es5, hes5, ht5⟩ := hm'.nodes
  obtain ⟨hvcycle, hvstage, hvpost, hvsat, hvtable, hvreads⟩ := hv.frames
  obtain ⟨hucycle, hustage, hupost, husat, huprop⟩ := hu.frames
  obtain ⟨hwcycle, hwstage, hwpost, hwsat, hwprop⟩ := hw.frames
  obtain ⟨hxcycle, hxstage, hxpost, hxsat, hxprop⟩ := hx.logs.frames
  obtain ⟨hmcycle, hmstage, hmpost, hmsat, hmprop⟩ := hm'.frames
  obtain ⟨n, hserver⟩ := @stocked_server _ b m cost
  have hlog : InLog m → InLog w := by
    intro hlog
    refine hw.inLog (@inLog_of_append _ _ _ (es1 ++ es2) ?_ (hvtable.trans hu.table) ?_)
    · rw [hes2, hes1, List.append_assoc]
    · exact @inLog_of_append _ _ _ [] (by simp [ServerState.nodes, hserver]) (by rw [hserver]) hlog
  have hquiet : f = false → InLog m → x = w := fun hf hm => hx.nothing fun a ha =>
    documented_of_coolingDown (hw.cooled hf a ha) (hlog hm)
  have hdue : DueForP7 b u ↔ DueForP7 b (m.stocked b cost) := by
    unfold DueForP7
    rw [hustage, husat, huprop]
  refine ⟨?_, ?_, ?_, ?_, ?_, ?_, ?_, ?_⟩
  · rw [hmcycle, hxcycle, hwcycle, hvcycle, hucycle, hserver]
  · rw [hmstage, hxstage, hwstage, hvstage, hustage, hserver]
  · rw [hmpost, hxpost, hwpost, hvpost, hupost]
  · rw [hmsat, hxsat, hwsat, hvsat, husat]
  · rw [hmprop, hxprop, hwprop, hv.proposal, hdue, huprop]
  · have hprop : proposalTypes b u = proposalTypes b (m.stocked b cost) := by
      unfold proposalTypes
      simp only [hdue]
    have hstart : m.server.nodes = (m.stocked b cost).server.nodes := by
      rw [hserver]
    refine ⟨es1 ++ es2 ++ (es3 ++ es4 ++ es5), (es3 ++ es4 ++ es5).map DagNode.nodeType, ?_, ?_,
      ?_, fun hf hm t ht => ?_⟩
    · rw [hes5, hes4, hes3, hes2, hes1, hstart]
      simp only [List.append_assoc]
    · simp only [List.map_append, ht1, ht2, hprop]
    · simp only [List.map_append, List.mem_append, List.mem_map]
      rintro t ((⟨e, he, rfl⟩ | ht) | ht)
      · exact .inl (ht3 e he)
      · exact .inr (.inl (ht4 t (List.mem_map.2 ht)))
      · exact .inr (.inr (ht5 t (List.mem_map.2 ht)))
    · have hnil : es4 = [] := by
        rw [hquiet hf hm] at hes4
        simpa using hes4
      subst hnil
      simp only [List.map_append, List.mem_append, List.mem_map, List.not_mem_nil, false_and,
        exists_false, or_false] at ht
      rcases ht with ⟨e, he, rfl⟩ | ht
      · exact not_startsWith (ht3 e he) (by decide)
      · exact not_startsWith (ht5 t (List.mem_map.2 ht)) (by decide)
  · exact fun hm => hm'.inLog (hx.logs.inLog (hlog hm))
  · intro hf hm
    rw [hmreads, hquiet hf hm, hw.readings, hvreads, hureads, hserver]

end Myco.Tropism
