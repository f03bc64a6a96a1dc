import Myco.Substrate.Absorption
import Myco.Tropism.Host

/-!
# A cycle

`handle_advance` of `substrate/src/ingest.rs` and the five steps of the cycle engine that it runs.
The worker is asked once; what comes of its answer is settled by the substrate alone, and none of
it is replayed (`aside_settleCycle`).

Durations are differences of clock readings. The accounts of cost that the observatory reads are
left out.
-/

namespace Myco.Tropism

open Myco.Lib Myco.Canonical Myco.Schema Myco.Substrate Myco.Prune

variable {env : Env} {rt : Runtime}

/-! ### Sporocarps -/

def encodeSelfEuthanasiaProposal (sp : SporocarpReport rt) (triggering : NodeHash) : Bytes :=
  cbEncode [("axis_name", .string sp.axisName),
    ("fruiting_value_repr", .string (rt.floatRepr sp.fruitingValue)), ("at_cycle", .uint sp.atCycle),
    ("triggering_sporocarp_hash", hashValue triggering),
    ("reason", .string s!"mortality_signal axis '{
      sp.axisName}' crossed threshold (decay → fruiting_value={rt.floatRepr sp.fruitingValue})")]

/-- The node of a sporocarp, and if it signals mortality the proposal that hangs from it. -/
def insertSporocarp (sp : SporocarpReport rt) : Handler env (NodeHash × Option NodeHash) := do
  let s ← get
  let dagHash ← Substrate.insertNode "dag insert"
    ⟨s.tipParents, sporocarpPrefix ++ sp.sporocarpType, sp.atCycle, sp.canonicalBytes⟩
  if sp.sporocarpType = mortalitySporocarpType then
    let proposalHash ← Substrate.insertNode "self_euthanasia_proposal DAG insert"
      ⟨[dagHash], selfEuthanasiaProposalPrefix ++ sp.axisName, sp.atCycle,
        encodeSelfEuthanasiaProposal sp dagHash⟩
    pure (dagHash, some proposalHash)
  else pure (dagHash, none)

/-! ### Pruning and hoarding -/

def cycleStepFailed (evidence : String) : Handler env PUnit := do
  let _ ← (emitImmuneSporocarp "C31_cycle_step_failed" "cycle_step_failed" evidence).attempt
  pure ⟨⟩

def hoardingIndicatorWindowCycles : UInt64 := 200
def hoardingIndicatorIngestionFloor : Nat := 10
def hoardingIndicatorMortalityFloor : Nat := 1
def hoardingCooldownCycles : UInt64 := 100

def countSince (nodePrefix : String) (s : ServerState env) (earliestCycle : UInt64) : Nat :=
  s.nodes.countP fun n => startsWith nodePrefix n.nodeType ∧ earliestCycle ≤ n.createdAtCycle

def countRawMaterialSince (s : ServerState env) := countSince rawMaterialPrefix s

def countInternalMortalityEventsSince (s : ServerState env) :=
  countSince internalMortalityEventPrefix s

def isHoarding (s : ServerState env) (currentCycle : UInt64) : Bool :=
  let earliest := saturatingSub currentCycle hoardingIndicatorWindowCycles
  if currentCycle < hoardingIndicatorWindowCycles then false
  else countRawMaterialSince s earliest ≥ hoardingIndicatorIngestionFloor ∧
    countInternalMortalityEventsSince s earliest < hoardingIndicatorMortalityFloor

/-- Whether `cooldown` cycles have not yet passed since the last time. -/
def coolingDown (last : Option UInt64) (cycle cooldown : UInt64) : Bool :=
  last.any fun last => saturatingSub cycle last < cooldown

def detectHoarding (postCycle : UInt64) : Handler env PUnit := do
  let s ← get
  if isHoarding s postCycle ∧
      ¬ coolingDown s.lastHoardingIndicatorEmittedAtCycle postCycle hoardingCooldownCycles then
    let earliest := saturatingSub postCycle hoardingIndicatorWindowCycles
    let _ ← (emitImmuneSporocarp "C54_hoarding_indicator" "hoarding_indicator"
      (s!"hoarding pattern detected at cycle {postCycle}: over last {
        hoardingIndicatorWindowCycles} cycles ingested {
        countRawMaterialSince s earliest} raw_material parts but emitted only {
        countInternalMortalityEventsSince s earliest} internal_mortality_events (P07 §3.1 mandates " ++
        s!"ongoing prune); COV04 §5.6 / §5.7 may also be implicated if a cultivator preserve-all " ++
        s!"instruction is the cause")).attempt
    modify fun s => { s with lastHoardingIndicatorEmittedAtCycle := some postCycle }
  else pure ⟨⟩

/-- The report of a scan, empty if the scan fails. -/
def pruneReport (postCycle : UInt64) : Handler env PruneScanReport := do
  match ← (runPruneScan postCycle).attempt with
  | .ok report => pure report
  | .error e =>
    cycleStepFailed s!"prune-scan failed at cycle {postCycle}: {
      e.text}; P07 internal mortality discipline did not run this cycle"
    pure ⟨[], [], postCycle⟩

def pruneStep (postCycle : UInt64) : Handler env (Option PruneScanReport) := do
  if shouldRunPruneScan postCycle then
    let report ← pruneReport postCycle
    detectHoarding postCycle
    pure (some report)
  else pure none

/-! ### Backlog -/

def maxCycleDurationMsAlive : Nat := 5000

def backlogThreshold : UInt32 := 10

def elapsedMs (start now : Int64) : Nat := (now.toInt - start.toInt).toNat / 1000000

def detectBacklog (durationMs : Nat) : Handler env PUnit := do
  if durationMs > maxCycleDurationMsAlive then
    modify fun s => { s with backlogCount := s.backlogCount + 1 }
    let s ← get
    if s.backlogCount ≥ backlogThreshold then
      let _ ← (emitImmuneSporocarp "C36_cycle_backlog" "cycle_backlog"
        s!"cycle {s.cycleCounter} ran {durationMs}ms exceeding alive-tier budget {
          maxCycleDurationMsAlive}ms; backlog_count={
          s.backlogCount} >= threshold (L2/OBSERVABILITY §7)").attempt
      pure ⟨⟩
    else pure ⟨⟩
  else pure ⟨⟩

/-! ### Hunger -/

def hungerRequestThresholdCycles : UInt64 := 10
def hungerRequestDebounceCycles : UInt64 := hungerRequestThresholdCycles
def starvationThresholdCycles : UInt64 := 30
def starvationDebounceCycles : UInt64 := 100

/-- How long ago the last raw material came in, and whether any ever did. -/
def cyclesSinceLastIngestion (s : ServerState env) (currentCycle : UInt64) : UInt64 × Bool :=
  match ((s.nodes.filter fun n => startsWith rawMaterialPrefix n.nodeType).map
      DagNode.createdAtCycle).max? with
  | some c => (saturatingSub currentCycle c, true)
  | none => (currentCycle, false)

def requestIngestion (postCycle cyclesSince : UInt64) (everFed : Bool) : Handler env PUnit := do
  let s ← get
  if cyclesSince ≥ hungerRequestThresholdCycles ∧
      ¬ coolingDown s.lastCultivarInitiatedIngestionRequestAtCycle postCycle
        hungerRequestDebounceCycles then
    match ← (emitSubstrateEvent cultivarInitiatedIngestionRequestType
        (encodeCultivarInitiatedIngestionRequest postCycle cyclesSince everFed)).attempt with
    | .ok _ => modify fun s =>
        { s with lastCultivarInitiatedIngestionRequestAtCycle := some postCycle }
    | .error _ => pure ⟨⟩
  else pure ⟨⟩

def starvationEvidence (cyclesSince : UInt64) (everFed : Bool) : String :=
  s!"p02 ingestion starvation: {cyclesSince} cycles since the last raw_material:* ingestion{
    neverFed} (>= {starvationThresholdCycles}-cycle starvation threshold). The cultivar has gone " ++
    s!"without food well past the moderate cultivar_initiated_ingestion_request point ({
    hungerRequestThresholdCycles} cycles); the cultivator should provide raw_material. P02 永恒吞噬 " ++
    s!"mandates ongoing ingestion — sustained starvation is a metabolic pathology, not a healthy idle " ++
    s!"(P02 §8.1)."
where
  neverFed : String := if everFed then "" else " (never fed since genesis)"

def alarmStarvation (postCycle cyclesSince : UInt64) (everFed : Bool) : Handler env PUnit := do
  let s ← get
  if cyclesSince ≥ starvationThresholdCycles ∧
      ¬ coolingDown s.lastIngestionStarvationEmittedAtCycle postCycle starvationDebounceCycles then
    match ← (emitImmuneSporocarp "C74_p02_ingestion_starvation" "p02_ingestion_starvation"
        (starvationEvidence cyclesSince everFed)).attempt with
    | .ok _ => modify fun s => { s with lastIngestionStarvationEmittedAtCycle := some postCycle }
    | .error _ => pure ⟨⟩
  else pure ⟨⟩

def applyHungerAndEmit (postCycle : UInt64) : Handler env PUnit := do
  let s ← get
  let (cyclesSince, everFed) := cyclesSinceLastIngestion s postCycle
  requestIngestion postCycle cyclesSince everFed
  alarmStarvation postCycle cyclesSince everFed

/-! ### The cycle -/

/-- The payload of an `advance_response`. -/
structure AdvanceResponse (rt : Runtime) where
  cycleNumber : UInt64
  candidateActive : Bool
  candidateDiverged : Bool
  divergenceReason : String
  dagTip : Option NodeHash
  dagNodeCount : UInt64
  fruitedAxes : List String
  sporocarps : List (SporocarpReport rt × NodeHash)
  deltasAbsorbed : UInt64
  handshakeEventsProcessed : UInt64
  skinBreaches : List String
  absorptionEventHash : Option NodeHash
  selfEuthanasiaProposalHashes : List NodeHash
  pruneScan : Option PruneScanReport
  cycleDurationMs : UInt64

/-- The immune events of the last cycle. -/
def breachNames (s : ServerState env) : List String :=
  (s.nodes.filter fun n => saturatingSub s.cycleCounter 1 ≤ n.createdAtCycle ∧
    startsWith immunePrefix n.nodeType).map DagNode.nodeType

/-- What a cycle does once the worker has answered. -/
def settleCycle (start : Int64) (postCycle : UInt64) (pending : List NodeHash)
    (breaches : List String) (report : AdvanceReport rt) : Handler env (AdvanceResponse rt) := do
  let hashes ← report.sporocarps.mapM insertSporocarp
  let absorptionEventHash ← emitAbsorptionEvent postCycle pending
  let s ← get
  let pruneScan ← pruneStep postCycle
  let now ← readClock
  detectBacklog (elapsedMs start now)
  applyHungerAndEmit postCycle
  pure
    { cycleNumber := postCycle
      candidateActive := report.candidateActive
      candidateDiverged := report.candidateDiverged
      divergenceReason := report.divergenceReason
      dagTip := s.ledger.tip
      dagNodeCount := s.nodeCount
      fruitedAxes := report.fruitedAxes
      sporocarps := report.sporocarps.zip (hashes.map Prod.fst)
      deltasAbsorbed := UInt64.ofNat pending.length
      handshakeEventsProcessed := 0
      skinBreaches := breaches
      absorptionEventHash
      selfEuthanasiaProposalHashes := hashes.filterMap Prod.snd
      pruneScan
      cycleDurationMs := UInt64.ofNat (elapsedMs start now) }

/-- A step of the cycle engine that fails. -/
def failCycle {α : Type} (step reason : String) : Op env rt α := do
  let e := s!"cycle step failed at {step}: {reason}"
  onServer (cycleStepFailed s!"CycleEngine.run_cycle returned Err: {e}")
  throw (.protocol s!"cycle engine: {e}")

def bridgeText : SubstrateError → String
  | .bridge what => what
  | e => e.text

/-- `advance_gradient` -/
def advanceGradient (cycleNumber : UInt64) : Op env rt (AdvanceReport rt) := do
  let answer ← (callPython .advance (advancePayload cycleNumber)).attempt
  match answer with
  | .ok (.advanceResponse report) => pure report
  | .ok _ => gradientFailed "bridge protocol: expected advance_response"
  | .error e => gradientFailed (bridgeText e)
where
  gradientFailed (e : String) : Op env rt (AdvanceReport rt) :=
    failCycle "gradient_advance" s!"python gradient advance failed: {e}"

def handleAdvanceRequest : Op env rt (AdvanceResponse rt) := do
  let start ← onServer readClock
  let h ← get
  let s := h.server
  match verifyAll env.blake3 s.ledger.dag with
  | .error e => failCycle "tier1_invariants" s!"DAG verify_all failed: {env.dagErrorText e}"
  | .ok () =>
    let report ← advanceGradient (s.cycleCounter + 1)
    onServer (settleCycle start (s.cycleCounter + 1) (pendingAbsorptionHashes s) (breachNames s)
      report)

/-! ### What a cycle leaves alone -/

variable {W : Watch} {postCycle : UInt64}

theorem aside_insertSporocarp {sp : SporocarpReport rt} :
    Within (Aside W) (insertSporocarp sp : Handler env _) := by
  refine within_bind within_get fun s => within_bind (aside_insertNode (W.not_common
    (p := sporocarpPrefix) (by simp [commonTexts]) startsWith_append)) fun dagHash => ?_
  split
  · exact within_bind (aside_insertNode (W.not_common (p := selfEuthanasiaProposalPrefix)
      (by simp [commonTexts]) startsWith_append)) fun _ => within_pure
  · exact within_pure

theorem aside_emitAbsorptionEvent {pending : List NodeHash} :
    Within (Aside W) (emitAbsorptionEvent postCycle pending : Handler env _) := by
  unfold emitAbsorptionEvent
  split
  · exact within_pure
  · refine within_bind within_get fun s => within_bind (aside_insertNode (W.not_common
      (p := absorptionPrefix) (by simp [commonTexts]) startsWith_append)) fun _ => ?_
    exact within_bind (aside_modify (fun _ => rfl) fun _ => rfl) fun _ => within_pure

theorem aside_cycleStepFailed {evidence : String} :
    Within (Aside W) (cycleStepFailed evidence : Handler env PUnit) :=
  within_bind (within_attempt aside_emitImmuneSporocarp) fun _ => within_pure

theorem aside_detectHoarding : Within (Aside W) (detectHoarding postCycle : Handler env PUnit) := by
  refine within_bind within_get fun s => ?_
  split
  · exact within_bind (within_attempt aside_emitImmuneSporocarp) fun _ =>
      aside_modify (fun _ => rfl) fun _ => rfl
  · exact within_pure

theorem aside_pruneReport : Within (Aside W) (pruneReport postCycle : Handler env _) := by
  refine within_bind (within_attempt aside_runPruneScan) fun x => ?_
  cases x with
  | ok _ => exact within_pure
  | error _ => exact within_bind aside_cycleStepFailed fun _ => within_pure

theorem aside_pruneStep : Within (Aside W) (pruneStep postCycle : Handler env _) := by
  unfold pruneStep
  split
  · exact within_bind aside_pruneReport fun _ =>
      within_bind aside_detectHoarding fun _ => within_pure
  · exact within_pure

theorem aside_detectBacklog {durationMs : Nat} :
    Within (Aside W) (detectBacklog durationMs : Handler env PUnit) := by
  unfold detectBacklog
  split
  · refine within_bind (aside_modify (fun _ => rfl) fun _ => rfl) fun _ =>
      within_bind within_get fun s => ?_
    split
    · exact within_bind (within_attempt aside_emitImmuneSporocarp) fun _ => within_pure
    · exact within_pure
  · exact within_pure

theorem aside_requestIngestion {cyclesSince : UInt64} {everFed : Bool} :
    Within (Aside W) (requestIngestion postCycle cyclesSince everFed : Handler env PUnit) := by
  refine within_bind within_get fun s => ?_
  split
  · refine within_bind (within_attempt (aside_emitSubstrateEvent
      (W.not_common (p := cultivarInitiatedIngestionRequestType) (by simp [commonTexts])
        (by simp [startsWith])))) fun x => ?_
    cases x with
    | ok _ => exact aside_modify (fun _ => rfl) fun _ => rfl
    | error _ => exact within_pure
  · exact within_pure

theorem aside_alarmStarvation {cyclesSince : UInt64} {everFed : Bool} :
    Within (Aside W) (alarmStarvation postCycle cyclesSince everFed : Handler env PUnit) := by
  refine within_bind within_get fun s => ?_
  split
  · refine within_bind (within_attempt aside_emitImmuneSporocarp) fun x => ?_
    cases x with
    | ok _ => exact aside_modify (fun _ => rfl) fun _ => rfl
    | error _ => exact within_pure
  · exact within_pure

theorem aside_settleCycle {start : Int64} {pending : List NodeHash} {breaches : List String}
    {report : AdvanceReport rt} :
    Within (Aside W) (settleCycle start postCycle pending breaches report : Handler env _) := by
  refine within_bind (within_mapM fun _ _ => aside_insertSporocarp) fun _ =>
    within_bind aside_emitAbsorptionEvent fun _ => within_bind within_get fun _ =>
    within_bind aside_pruneStep fun _ => within_bind aside_readClock fun _ =>
    within_bind aside_detectBacklog fun _ => within_bind ?_ fun _ => within_pure
  exact within_bind within_get fun _ => within_bind aside_requestIngestion fun _ =>
    aside_alarmStarvation

theorem spares_advanceGradient {cycle : UInt64} :
    Within (Spares W) (advanceGradient cycle : Op env rt (AdvanceReport rt)) := by
  have hfail : ∀ {step reason : String},
      Within (Spares W) (failCycle step reason : Op env rt (AdvanceReport rt)) :=
    within_bind ((leaves_onServer aside_cycleStepFailed).mono fun _ _ => Leaves.spares) fun _ =>
      within_throw
  refine within_bind (within_attempt spares_callPython) fun answer => ?_
  rcases answer with e | reply
  · exact hfail
  · cases reply with
    | advanceResponse report => exact within_pure
    | registerAxisAck => exact hfail
    | perturbAck => exact hfail
    | submitMutationResponse report => exact hfail
    | commitMigrationAck => exact hfail
    | abortMigrationAck => exact hfail

/-- A cycle is aside of everything until it is counted. -/
theorem spares_handleAdvanceRequest :
    Within (Spares W) (handleAdvanceRequest : Op env rt (AdvanceResponse rt)) := by
  have hserver : ∀ {α : Type} {m : Handler env α}, Within (Aside W) m →
      Within (Spares W) (onServer m : Op env rt α) := fun hm =>
    (leaves_onServer hm).mono fun _ _ => Leaves.spares
  refine within_bind (hserver aside_readClock) fun start => within_bind within_get fun h => ?_
  dsimp only
  split
  · exact within_bind (hserver aside_cycleStepFailed) fun _ => within_throw
  · exact within_bind spares_advanceGradient fun report => hserver aside_settleCycle

/-! ### What settling a cycle answers -/

theorem tipParents_of_nodes {s : ServerState env} {ns : List DagNode} {n : DagNode}
    (h : s.nodes = ns ++ [n]) : s.tipParents = [n.hash] := by
  have hl : s.ledger.nodes = ns ++ [n] := h
  rw [ServerState.tipParents, Ledger.tip_eq, hl]
  simp

/-- Only a collision keeps a sporocarp out of the log. -/
theorem sure_insertSporocarp {sp : SporocarpReport rt} :
    Sure (insertSporocarp sp : Handler env _) := by
  intro s r t he
  rw [insertSporocarp, Prog.exec_get_bind] at he
  have hfirst : ∀ {x u}, (Substrate.insertNode "dag insert" ⟨s.tipParents,
      sporocarpPrefix ++ sp.sporocarpType, sp.atCycle, sp.canonicalBytes⟩).exec s = some (x, u) →
      Barring (fun s u => (∃ dagHash, x = .ok dagHash ∧ u.tipParents = [dagHash])) s u := by
    intro x u h1
    refine (insertNode_tip h1 ?_ (List.append_nil _).symm (by simp)).imp ?_
    · exact ne_empty_of_startsWith startsWith_append (q := genesisPrefix) (by decide)
    · rintro ⟨hx, ha⟩
      exact ⟨_, hx, tipParents_of_nodes ha.nodes⟩
  rcases Prog.exec_bind_eq_some.1 he with ⟨e, h1, -⟩ | ⟨dagHash, u, h1, h2⟩
  · refine (hfirst h1).imp ?_
    rintro ⟨_, hx, -⟩
    cases hx
  split at h2
  · -- the proposal hangs from the sporocarp, which is the tip by now
    have hsecond : ∀ {x v}, (Substrate.insertNode "self_euthanasia_proposal DAG insert" ⟨[dagHash],
        selfEuthanasiaProposalPrefix ++ sp.axisName, sp.atCycle,
        encodeSelfEuthanasiaProposal sp dagHash⟩).exec u = some (x, v) →
        Barring (fun _ _ => ∃ a, x = .ok a) s v := by
      intro x v h3
      by_cases hcol : Collided u
      · have hstays : Collided u → Collided v :=
          (aside_insertNode (W := replayed) (replayed.not_common (p := selfEuthanasiaProposalPrefix)
            (by simp [commonTexts]) startsWith_append) _ _ _ h3).collided
        exact ⟨fun _ => hstays hcol, fun hv => absurd (hstays hcol) hv⟩
      · obtain ⟨_, hx, htip⟩ := (hfirst h1).holds hcol
        cases hx
        have hp : [dagHash] = u.tipParents ++ [] := by rw [htip, List.append_nil]
        refine (hfirst h1).trans (insertNode_tip h3 ?_ hp (by simp)) ?_
        · exact ne_empty_of_startsWith startsWith_append (q := genesisPrefix) (by decide)
        · rintro - ⟨hx, -⟩
          exact ⟨_, hx⟩
    rcases Prog.exec_bind_eq_some.1 h2 with ⟨e, h3, -⟩ | ⟨proposalHash, v, h3, h4⟩
    · refine (hsecond h3).imp ?_
      rintro ⟨_, hx⟩
      cases hx
    · cases h4
      exact (hsecond h3).imp fun _ => ⟨_, rfl⟩
  · cases h2
    exact (hfirst h1).imp fun _ => ⟨_, rfl⟩

/-- Neither does the rest of a cycle fail. -/
theorem succeeds_pruneStep : Succeeds (pruneStep postCycle : Handler env _) := by
  have hfailed : ∀ {evidence : String},
      Succeeds (cycleStepFailed evidence : Handler env PUnit) :=
    succeeds_bind succeeds_attempt fun _ => succeeds_pure
  have hreport : Succeeds (pruneReport postCycle : Handler env PruneScanReport) := by
    refine succeeds_bind succeeds_attempt fun x => ?_
    cases x with
    | ok _ => exact succeeds_pure
    | error _ => exact succeeds_bind hfailed fun _ => succeeds_pure
  have hhoarding : Succeeds (detectHoarding postCycle : Handler env PUnit) := by
    refine succeeds_bind succeeds_get fun s => ?_
    split
    · exact succeeds_bind succeeds_attempt fun _ => succeeds_modify
    · exact succeeds_pure
  unfold pruneStep
  split
  · exact succeeds_bind hreport fun _ => succeeds_bind hhoarding fun _ => succeeds_pure
  · exact succeeds_pure

theorem succeeds_detectBacklog {durationMs : Nat} :
    Succeeds (detectBacklog durationMs : Handler env PUnit) := by
  unfold detectBacklog
  split
  · refine succeeds_bind succeeds_modify fun _ => succeeds_bind succeeds_get fun s => ?_
    split
    · exact succeeds_bind succeeds_attempt fun _ => succeeds_pure
    · exact succeeds_pure
  · exact succeeds_pure

theorem succeeds_requestIngestion {cyclesSince : UInt64} {everFed : Bool} :
    Succeeds (requestIngestion postCycle cyclesSince everFed : Handler env PUnit) := by
  refine succeeds_bind succeeds_get fun s => ?_
  split
  · refine succeeds_bind succeeds_attempt fun x => ?_
    cases x with
    | ok _ => exact succeeds_modify
    | error _ => exact succeeds_pure
  · exact succeeds_pure

theorem succeeds_alarmStarvation {cyclesSince : UInt64} {everFed : Bool} :
    Succeeds (alarmStarvation postCycle cyclesSince everFed : Handler env PUnit) := by
  refine succeeds_bind succeeds_get fun s => ?_
  split
  · refine succeeds_bind succeeds_attempt fun x => ?_
    cases x with
    | ok _ => exact succeeds_modify
    | error _ => exact succeeds_pure
  · exact succeeds_pure

theorem succeeds_applyHungerAndEmit :
    Succeeds (applyHungerAndEmit postCycle : Handler env PUnit) :=
  succeeds_bind succeeds_get fun _ => succeeds_bind succeeds_requestIngestion fun _ =>
    succeeds_alarmStarvation

theorem pendingAbsorptionHashes_subset {s : ServerState env} :
    ∀ k ∈ pendingAbsorptionHashes s, k ∈ s.nodes.map DagNode.hash :=
  fun _ hk => List.map_subset _ (List.filter_subset_self _) hk

/-- Barring a collision, a cycle that the worker has answered is settled, and its outcome is what
the worker has reported. -/
theorem settleCycle_ends {start : Int64} {pending : List NodeHash} {breaches : List String}
    {report : AdvanceReport rt} {s t : ServerState env} {r : Except SubstrateError (AdvanceResponse rt)}
    (hpend : ∀ k ∈ pending, k ∈ s.nodes.map DagNode.hash)
    (he : (settleCycle start postCycle pending breaches report).exec s = some (r, t)) :
    Barring (fun _ _ => ∃ a, r = .ok a ∧ a.candidateActive = report.candidateActive ∧
      a.candidateDiverged = report.candidateDiverged) s t := by
  have hstays : ∀ {α : Type} {m : Handler env α} {s r t}, Within (Aside replayed) m →
      m.exec s = some (r, t) → Collided s → Collided t := fun hm he => (hm _ _ _ he).collided
  rw [settleCycle] at he
  have hsporocarps : Sure (report.sporocarps.mapM insertSporocarp : Handler env _) :=
    sure_mapM fun _ _ => sure_insertSporocarp
  have hkeep : Within (Aside replayed) (report.sporocarps.mapM insertSporocarp : Handler env _) :=
    within_mapM fun _ _ => aside_insertSporocarp
  rcases Prog.exec_bind_eq_some.1 he with ⟨e, h1, -⟩ | ⟨hashes, u, h1, h2⟩
  · exact (hsporocarps _ _ _ h1).imp fun ⟨_, hx⟩ => by cases hx
  obtain ⟨ns, hn, -⟩ := (hkeep _ _ _ h1).nodes
  have hpend' : ∀ k ∈ pending, k ∈ u.nodes.map DagNode.hash := fun k hk => by
    rw [hn, List.map_append]
    exact List.mem_append_left _ (hpend k hk)
  rcases Prog.exec_bind_eq_some.1 h2 with ⟨e, h3, -⟩ | ⟨absorption, v, h3, h4⟩
  · exact (hsporocarps _ _ _ h1).trans (emitAbsorptionEvent_ends hpend' h3) fun _ ⟨_, hx⟩ => by
      cases hx
  have hinserted := (hsporocarps _ _ _ h1).trans (emitAbsorptionEvent_ends hpend' h3)
    (T := fun _ _ => True) fun _ _ => trivial
  rw [Prog.exec_get_bind] at h4
  obtain ⟨pruneScan, w, h5, h6⟩ := succeeds_pruneStep.exec_bind h4
  have hclock : Succeeds (readClock : Handler env Int64) :=
    succeeds_bind succeeds_get fun _ => succeeds_bind succeeds_modify fun _ => succeeds_pure
  obtain ⟨now, x, h7, h8⟩ := hclock.exec_bind h6
  obtain ⟨_, y, h9, h10⟩ := succeeds_detectBacklog.exec_bind h8
  obtain ⟨_, z, h11, h12⟩ := succeeds_applyHungerAndEmit.exec_bind h10
  have hhunger : Within (Aside replayed) (applyHungerAndEmit postCycle : Handler env PUnit) :=
    within_bind within_get fun _ => within_bind aside_requestIngestion fun _ => aside_alarmStarvation
  cases h12
  refine ⟨fun hc => ?_, fun _ => ⟨_, rfl, rfl, rfl⟩⟩
  exact hstays hhunger h11 (hstays aside_detectBacklog h9 (hstays aside_readClock h7
    (hstays aside_pruneStep h5 (hinserted.stays hc))))

end Myco.Tropism
