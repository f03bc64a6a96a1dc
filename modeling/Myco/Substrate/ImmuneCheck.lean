import Myco.Canonical.Length
import Myco.Prune.Present
import Myco.Substrate.Absorption
import Myco.Tropism.Spans

/-!
# The immune scan

`handle_run_immune_check` of `substrate/src/integrity.rs`: the operator asks for the eight integrity
checks of `run_integrity_checks`. For each that fails an alarm is raised, and of each a witness is
laid into the log, at most one a cycle.

A scan changes no verdict: whatever the eight checks say before it, they say the same after it
(`scan_keeps_verdicts`). A later scan in the same cycle adds no witness, and an alarm for a check
that fails only (`rescan_adds_alarms`). And in no run from the genesis does the sum of the spans
depart from the counter (`spans_sum_to_counter`).
-/

namespace Myco.Substrate

open Myco.Lib Myco.Canonical Myco.Schema Myco.Federation Myco.Consensus Myco.Prune

variable {env : Env}

/-! ### The other checks -/

def checkSubstrateIdWellFormed (s : ServerState env) : IntegrityCheckResult :=
  let zero := (ownId s).bytes.all (· == 0)
  { checkId := "substrate_id_well_formed"
    passed := !zero
    evidence := if zero then "manifest.substrate_id is all zeros (genesis bug or tamper)" else "ok"
    witnessInputs := cbEncode [("substrate_id", hashValue (ownId s))]
    tier := "tier_1" }

def checkDagVerifyAll (s : ServerState env) : IntegrityCheckResult :=
  let dagVerify := verifyAll env.blake3 s.ledger.dag
  { checkId := "dag_verify_all"
    passed := dagVerify.isOk
    evidence := match dagVerify with
      | .ok () => s!"ok (all {s.nodeCount} nodes pass hash recomputation)"
      | .error e => s!"dag_verify_all failed: {env.dagErrorText e}"
    witnessInputs := cbEncode [("node_count", .uint s.nodeCount),
      ("dag_tip_hash", .bytes (tipBytes s))]
    tier := "tier_1" }

/-- `Debug` of an `Option<u64>`. -/
def debugOption : Option UInt64 → String
  | none => "None"
  | some n => s!"Some({n})"

/-- Where the live state departs from the state `d` that the log gives. What a log from before the
genesis event leaves out is no departure. -/
def divergences (s : ServerState env) (d : DerivedState) : List String :=
  [d.substrateId.bind fun id => if id ≠ ownId s then
      some s!"substrate_id mismatch: live={hexEncode (ownId s).bytes}, derived={
        hexEncode id.bytes}" else none,
    d.genesisTimeUnixNs.bind fun t => if t ≠ s.genesisTimeUnixNs.getD 0 then
      some s!"genesis_time_unix_ns mismatch: live={s.genesisTimeUnixNs.getD 0}, derived={t}"
      else none,
    if (d.cycleCounter > 0 ∨ d.substrateId.isSome) ∧ d.cycleCounter ≠ s.cycleCounter then
      some s!"cycle_counter mismatch: live={s.cycleCounter}, derived={d.cycleCounter}" else none,
    if d.lastAbsorbedCycle ≠ s.lastAbsorbedCycle ∧ d.lastAbsorbedCycle.isSome then
      some s!"last_absorbed_cycle mismatch: live={debugOption s.lastAbsorbedCycle}, derived={
        debugOption d.lastAbsorbedCycle}" else none].reduceOption

/-- The first departure stands for all of them. -/
def summary : List String → Bool × String
  | [] => (true, "ok (Rust-side identity / metabolic-position state fully derivable from DAG)")
  | [only] => (false, only)
  | first :: rest => (false, s!"{rest.length + 1} orphan(s) detected. First: {first}")

section

variable (errorText : DerivedStateError → String)

/-- `none` when replaying stops the process. -/
def checkSubstrateStateOrphans (s : ServerState env) : Option (Bool × String) :=
  match fromDag s.ledger.dag with
  | .ok derived => some (summary (divergences s derived))
  | .error (.err e) => some (false,
      s!"DerivedState::from_dag failed: {errorText e} (likely event encoding bug)")
  | .error _ => none

end

def orphanResult (s : ServerState env) (orphan : Bool × String) : IntegrityCheckResult where
  checkId := "substrate_state_orphan_detected"
  passed := orphan.1
  evidence := orphan.2
  witnessInputs := cbEncode [("substrate_id", hashValue (ownId s)),
    ("manifest_cycle_counter", .uint s.cycleCounter), ("dag_node_count", .uint s.nodeCount)]
  tier := "tier_1"

def genesisEvents (ns : List DagNode) : List DagNode :=
  ns.filter fun n => startsWith genesisPrefix n.nodeType

def checkGenesisEventUniqueness (s : ServerState env) : IntegrityCheckResult :=
  let count := (genesisEvents s.nodes).length
  let firstHashHex := ((genesisEvents s.nodes).head?.map fun n => hexEncode n.hash.bytes).getD ""
  { checkId := "genesis_event_uniqueness"
    passed := decide (count ≤ 1)
    evidence := if count ≤ 1 then s!"ok ({count} genesis_event:* in DAG)"
      else s!"DAG contains {count} genesis_event:* nodes; expected ≤ 1 " ++
        "(P06 §3.5 root-of-causal-chain uniqueness violated)"
    witnessInputs := cbEncode [("genesis_event_count", .uint (UInt64.ofNat count)),
      ("first_genesis_event_hash", .string firstHashHex)]
    tier := "tier_1" }

def decodeCycleAdvancedSpan (n : DagNode) : Option UInt64 := do
  let content ← decodeMap? n.content
  let prior ← uint? content "prior_cycle"
  let new ← uint? content "new_cycle"
  return saturatingSub new prior

/-- The spans in all; a node that cannot be read counts for one. -/
def advanceSpanSum (ns : List DagNode) : UInt64 :=
  ((Tropism.cycleNodes ns).map fun n => (decodeCycleAdvancedSpan n).getD 1).foldl saturatingAdd 0

/-- `u64::abs_diff`. -/
def absDiff (a b : UInt64) : UInt64 := if a ≤ b then b - a else a - b

def checkManifestCycleVsDagAdvanceCount (s : ServerState env) : IntegrityCheckResult :=
  let counter := s.cycleCounter
  let sum := advanceSpanSum s.nodes
  let diff := absDiff counter sum
  { checkId := "manifest_cycle_vs_dag_advance_count"
    passed := decide (diff ≤ 1)
    evidence := if diff ≤ 1 then
        s!"ok (manifest_cycle_counter={counter}, dag_cycle_advanced_span_sum={sum})"
      else s!"manifest_cycle_counter={counter} but DAG cycle_advanced spans sum to {
        sum} (diff={diff}, exceeds tolerance 1; either manifest mutated " ++
        "without DAG emission or DAG truncated)"
    witnessInputs := cbEncode [("manifest_cycle_counter", .uint counter),
      ("dag_cycle_advanced_span_sum", .uint sum)]
    tier := "tier_1" }

/-! ### The scan -/

section

variable (errorText : DerivedStateError → String)

def runIntegrityChecks (s : ServerState env) : Option (List IntegrityCheckResult) := do
  let drift ← checkCanonicalBytesRenderDrift s
  let orphan ← checkSubstrateStateOrphans errorText s
  return [checkSubstrateIdWellFormed s, checkCycleCounterMonotonic s, checkDagVerifyAll s, drift,
    orphanResult s orphan, checkSilentInternalMortality s, checkGenesisEventUniqueness s,
    checkManifestCycleVsDagAdvanceCount s]

/-- The detector, and its name, that speaks for a check. -/
def detectorOf (checkId : String) : String × String :=
  if checkId = "canonical_bytes_render_drift" then
    ("C18_canonical_bytes_render_drift", "canonical_bytes_render_drift")
  else if checkId = "substrate_state_orphan_detected" then
    ("C32_substrate_state_orphan_detected", "substrate_state_orphan_detected")
  else if checkId = "silent_internal_mortality" then
    ("C55_silent_internal_mortality", "silent_internal_mortality")
  else if checkId = "genesis_event_uniqueness" then
    ("C57_genesis_event_non_unique", "genesis_event_non_unique")
  else if checkId = "manifest_cycle_vs_dag_advance_count" then
    ("C59_manifest_cycle_vs_dag_advance_mismatch", "manifest_cycle_vs_dag_advance_mismatch")
  else ("C9_cold_resume_invariant_failure", s!"cold_resume_invariant_failure ({checkId})")

/-- The alarms of a scan, counted. -/
def emitAlarms : List IntegrityCheckResult → UInt64 → Handler env UInt64
  | [], count => pure count
  | result :: results, count =>
    if result.passed then emitAlarms results count
    else do
      let detector := detectorOf result.checkId
      let evidence := s!"ad-hoc integrity check failed: {result.checkId} — {result.evidence}"
      match ← (emitImmuneSporocarp detector.1 detector.2 evidence :
        Handler env NodeHash).attempt with
      | .ok _ => emitAlarms results (count + 1)
      | .error _ => emitAlarms results count

def invariantWitnessPrefix : String := "invariant_witness:"

def encodeInvariantWitness (checkId tier : String) (atCycle : UInt64) (atUnixNs : Int64)
    (inputs : Bytes) : Bytes :=
  cbEncode [("check_id", .string checkId), ("tier", .string tier), ("at_cycle", .uint atCycle),
    ("at_unix_ns", .timestamp atUnixNs), ("inputs", .bytes inputs)]

/-- The checks that have a witness of this cycle. -/
def alreadyWitnessed (s : ServerState env) : List String :=
  (s.nodes.filter fun n => n.createdAtCycle = s.cycleCounter).filterMap fun n =>
    stripPrefix invariantWitnessPrefix n.nodeType

def emitWitnesses (atCycle : UInt64) (atUnixNs : Int64) (already : List String) :
    List IntegrityCheckResult → UInt64 → Handler env UInt64
  | [], count => pure count
  | result :: results, count =>
    if result.witnessInputs.isEmpty ∨ result.checkId ∈ already then
      emitWitnesses atCycle atUnixNs already results count
    else do
      let body := encodeInvariantWitness result.checkId result.tier atCycle atUnixNs
        result.witnessInputs
      match ← (emitSubstrateEvent (invariantWitnessPrefix ++ result.checkId) body :
        Handler env NodeHash).attempt with
      | .ok _ => emitWitnesses atCycle atUnixNs already results (count + 1)
      | .error _ => emitWitnesses atCycle atUnixNs already results count

def emitInvariantWitnesses (results : List IntegrityCheckResult) : Handler env UInt64 := do
  let s ← get
  let atUnixNs ← readClock
  emitWitnesses s.cycleCounter atUnixNs (alreadyWitnessed s) results 0

/-- `save_dag_state(state)?`, if there is something to save. -/
def saveIfAny (emitted : UInt64) (saved : Except SubstrateError PUnit) : Handler env PUnit :=
  if emitted > 0 then ExceptT.mk (pure saved) else pure ⟨⟩

def scanEntries (results : List IntegrityCheckResult) (emittedCount : UInt64) :
    List (String × Value) :=
  [("total_checks", .uint (UInt64.ofNat results.length)),
    ("failed_checks", .uint (UInt64.ofNat (results.filter fun r => !r.passed).length)),
    ("immune_events_emitted", .uint emittedCount),
    ("checks", .array (results.map fun r => mapOf [("check_id", .string r.checkId),
      ("passed", .bool r.passed), ("evidence", .string r.evidence)]))]

/-- The two saves end as `alarmsSaved` and `witnessesSaved` say. -/
def handleRunImmuneCheck (alarmsSaved witnessesSaved : Except SubstrateError PUnit)
    (request : Message) : Handler env (Option Message) := do
  let s ← get
  match runIntegrityChecks errorText s with
  | none => Prog.halt
  | some results =>
    let emittedCount ← emitAlarms results 0
    saveIfAny emittedCount alarmsSaved
    let witnessesEmitted ← emitInvariantWitnesses results
    saveIfAny witnessesEmitted witnessesSaved
    pure (respond "run_immune_check_response" request (scanEntries results emittedCount))

end

/-! ### What a scan lays into the log -/

/-- An alarm, or a witness. -/
def ScanType (t : String) : Prop := startsWith immunePrefix t ∨ startsWith invariantWitnessPrefix t

/-- No text starts with one of the prefixes of what a scan lays and with `q` as well. -/
def ScanApart (q : String) : Prop := Apart immunePrefix q ∧ Apart invariantWitnessPrefix q

instance (q : String) : Decidable (ScanApart q) := inferInstanceAs (Decidable (_ ∧ _))

theorem ScanType.not_startsWith {t q : String} (h : ScanType t) (hq : ScanApart q) :
    ¬ startsWith q t :=
  h.elim (Lib.not_startsWith · hq.1) (Lib.not_startsWith · hq.2)

theorem ScanType.ne {t q : String} (h : ScanType t) (hq : ScanApart q) : t ≠ q := by
  rintro rfl
  exact h.not_startsWith hq (by simp [startsWith])

theorem ScanType.pureRecord {t : String} (h : ScanType t) : family t = .pureRecord :=
  h.elim (family_pureRecord · (by decide)) (family_pureRecord · (by decide))

/-- Notes on the tip, and the birth stays what it was. -/
structure Scans (s s' : ServerState env) : Prop where
  lays : Lays Now s s'
  onTip : Extends ScanType s s'
  genesisTime : s'.genesisTimeUnixNs = s.genesisTimeUnixNs

instance : IsPreorder (ServerState env) Scans where
  refl s := ⟨Std.Refl.refl s, Std.Refl.refl s, rfl⟩
  trans _ _ _ h h' := ⟨IsTrans.trans _ _ _ h.lays h'.lays, IsTrans.trans _ _ _ h.onTip h'.onTip,
    h'.genesisTime.trans h.genesisTime⟩

/-- The birth stays what it was. -/
def SameBirth (s s' : ServerState env) : Prop := s'.genesisTimeUnixNs = s.genesisTimeUnixNs

instance : IsPreorder (ServerState env) SameBirth where
  refl _ := rfl
  trans _ _ _ h h' := Eq.trans h' h

theorem sameBirth_insertNode {what : String} {c : Insertion} :
    Within SameBirth (insertNode what c : Handler env NodeHash) := by
  intro s r s' h
  rw [exec_insertNode] at h
  split at h
  · cases h
    rfl
  · cases h

theorem sameBirth_readClock : Within SameBirth (readClock : Handler env Int64) :=
  within_bind within_get fun _ => within_bind (within_modify fun _ => rfl) fun _ => within_pure

theorem sameBirth_emitSubstrateEvent {nodeType : String} {content : Bytes} :
    Within SameBirth (emitSubstrateEvent nodeType content : Handler env NodeHash) := by
  refine within_bind within_get fun _ => within_bind sameBirth_insertNode fun _ =>
    within_bind (within_modify fun s => ?_) fun _ => within_pure
  unfold SameBirth ServerState.refreshCultivation
  split <;> rfl

theorem sameBirth_emitFresh {detectorId detectorName evidence : String} {t : Int64} {n : UInt64} :
    Within SameBirth (emitFresh detectorId detectorName evidence t n : Handler env NodeHash) :=
  within_bind within_get fun _ => within_bind sameBirth_insertNode fun _ =>
    within_bind (within_modify fun _ => rfl) fun _ => within_pure

theorem sameBirth_emitImmuneSporocarp {detectorId detectorName evidence : String} :
    Within SameBirth (emitImmuneSporocarp detectorId detectorName evidence :
      Handler env NodeHash) := by
  refine within_bind sameBirth_readClock fun _ => within_bind within_get fun s => ?_
  cases OrdMap.get detectorId s.immuneEmissionState with
  | none => exact sameBirth_emitFresh
  | some prior =>
    dsimp only
    split
    · exact within_bind (within_modify fun _ => rfl) fun _ => within_pure
    · exact sameBirth_emitFresh

theorem scans_alarm {detectorId detectorName evidence : String} :
    Within Scans (emitImmuneSporocarp detectorId detectorName evidence : Handler env NodeHash) :=
  fun s r s' h => ⟨lays_emitImmuneSporocarp s r s' h,
    extends_emitImmuneSporocarp (.inl startsWith_append) s r s' h,
    sameBirth_emitImmuneSporocarp s r s' h⟩

theorem isNote_invariantWitness {checkId : String} : IsNote (invariantWitnessPrefix ++ checkId) :=
  isNote_of_startsWith startsWith_append (by decide)

theorem scans_witness {checkId tier : String} {atCycle : UInt64} {t : Int64} {inputs : Bytes} :
    Within Scans (emitSubstrateEvent (invariantWitnessPrefix ++ checkId)
      (encodeInvariantWitness checkId tier atCycle t inputs) : Handler env NodeHash) :=
  fun s r s' h => ⟨lays_event isNote_invariantWitness (by simp [Value.WF]) s r s' h,
    extends_emitSubstrateEvent (.inr startsWith_append) s r s' h,
    sameBirth_emitSubstrateEvent s r s' h⟩

theorem scans_readClock : Within Scans (readClock : Handler env Int64) :=
  fun s r s' h => ⟨lays_readClock s r s' h, extends_readClock s r s' h,
    sameBirth_readClock s r s' h⟩

theorem scans_emitAlarms {results : List IntegrityCheckResult} {count : UInt64} :
    Within Scans (emitAlarms results count : Handler env UInt64) := by
  induction results generalizing count with
  | nil => exact within_pure
  | cons result results ih =>
    unfold emitAlarms
    refine within_ite ih (within_bind (within_attempt scans_alarm) fun answer => ?_)
    cases answer with
    | ok _ => exact ih
    | error _ => exact ih

theorem scans_emitWitnesses {atCycle : UInt64} {t : Int64} {already : List String}
    {results : List IntegrityCheckResult} {count : UInt64} :
    Within Scans (emitWitnesses atCycle t already results count : Handler env UInt64) := by
  induction results generalizing count with
  | nil => exact within_pure
  | cons result results ih =>
    unfold emitWitnesses
    refine within_ite ih (within_bind (within_attempt scans_witness) fun answer => ?_)
    cases answer with
    | ok _ => exact ih
    | error _ => exact ih

theorem scans_saveIfAny {emitted : UInt64} {saved : Except SubstrateError PUnit} :
    Within Scans (saveIfAny emitted saved : Handler env PUnit) :=
  within_ite within_ofExcept within_pure

section

variable {errorText : DerivedStateError → String}
  {alarmsSaved witnessesSaved : Except SubstrateError PUnit} {request : Message}

theorem scans_handleRunImmuneCheck : Within Scans
    (handleRunImmuneCheck errorText alarmsSaved witnessesSaved request : Handler env _) := by
  refine within_bind within_get fun s => ?_
  cases runIntegrityChecks errorText s with
  | none => exact within_halt
  | some results =>
    refine within_bind scans_emitAlarms fun _ => within_bind scans_saveIfAny fun _ =>
      within_bind (within_bind within_get fun _ => within_bind scans_readClock fun _ =>
        scans_emitWitnesses) fun _ => within_bind scans_saveIfAny fun _ => within_pure

end

/-- The nodes that a scan adds. -/
theorem Scans.exists_nodes {s s' : ServerState env} (h : Scans s s') :
    ∃ es, s'.nodes = s.nodes ++ es ∧
      ∀ e ∈ es, Now s.cycleCounter e ∧ ScanType e.nodeType := by
  obtain ⟨es, hn, hes⟩ := (h.lays.log.and h.onTip.log).exists_forall
  exact ⟨es, hn, fun e he => (hes e he).elim fun _ hl => ⟨hl.1.2, hl.2.kind⟩⟩

/-! ### The verdicts -/

def IntegrityCheckResult.verdict (r : IntegrityCheckResult) : String × Bool := (r.checkId, r.passed)

/-- What the eight checks say, unless a scan stops the process. -/
def verdicts (errorText : DerivedStateError → String) (s : ServerState env) :
    Option (List (String × Bool)) :=
  (runIntegrityChecks errorText s).map (·.map IntegrityCheckResult.verdict)

section

variable {s s' : ServerState env}

theorem Scans.ownId (h : Scans s s') : ownId s' = ownId s := by
  have hid : s'.substrateId = s.substrateId := congrArg Live.substrateId h.lays.live
  unfold Consensus.ownId
  rw [hid]

theorem Scans.filter_eq (h : Scans s s') {p : DagNode → Bool}
    (hp : ∀ e : DagNode, ScanType e.nodeType → p e = false) :
    s'.nodes.filter p = s.nodes.filter p := by
  obtain ⟨es, hn, hes⟩ := h.exists_nodes
  have hnone : es.filter p = [] :=
    List.filter_eq_nil_iff.2 fun e he => by rw [hp e (hes e he).2]; exact Bool.false_ne_true
  rw [hn, List.filter_append, hnone, List.append_nil]

theorem Scans.substrateId (h : Scans s s') :
    (checkSubstrateIdWellFormed s').verdict = (checkSubstrateIdWellFormed s).verdict := by
  unfold checkSubstrateIdWellFormed
  rw [h.ownId]

/-- What is laid is of the cycle that the counter stands at. -/
theorem Scans.cycleCounterMonotonic (h : Scans s s') :
    (checkCycleCounterMonotonic s').verdict = (checkCycleCounterMonotonic s).verdict := by
  obtain ⟨es, hn, hes⟩ := h.exists_nodes
  have hpassed : (checkCycleCounterMonotonic s').passed =
      (checkCycleCounterMonotonic s).passed := by
    rw [Bool.eq_iff_iff, checkCycleCounterMonotonic_passed, checkCycleCounterMonotonic_passed, hn,
      h.lays.cycleCounter, List.forall_mem_append, and_iff_left_iff_imp]
    intro _ e he
    rw [(hes e he).1.1]
    exact UInt64.le_refl _
  exact congrArg (Prod.mk _) hpassed

theorem checkDagVerifyAll_passed : (checkDagVerifyAll s).passed = true := by
  have hverified : verifyAll env.blake3 s.ledger.dag = .ok () := by
    rw [s.ledger.dag_eq]
    exact s.ledger.recorded.verifyAll
  unfold checkDagVerifyAll
  rw [hverified]
  rfl

theorem Scans.dagVerifyAll (_ : Scans s s') :
    (checkDagVerifyAll s').verdict = (checkDagVerifyAll s).verdict :=
  congrArg (Prod.mk _) (checkDagVerifyAll_passed.trans checkDagVerifyAll_passed.symm)

theorem mapM_drift_rendered {ns : List DagNode} (h : ∀ n ∈ ns, drift env n = some none) :
    ns.mapM (drift env) = some (ns.map fun _ => none) := by
  induction ns with
  | nil => rfl
  | cons n ns ih =>
    rw [List.forall_mem_cons] at h
    rw [List.mapM_cons, h.1, ih h.2]
    rfl

/-- What is laid reads back as it was written. -/
theorem Scans.canonicalBytesRenderDrift (h : Scans s s') :
    (checkCanonicalBytesRenderDrift s').map IntegrityCheckResult.verdict =
      (checkCanonicalBytesRenderDrift s).map IntegrityCheckResult.verdict := by
  obtain ⟨es, hn, hes⟩ := h.exists_nodes
  have hnew : ∀ e ∈ es.filter (fun n => isSubstrateGenerated n.nodeType),
      drift env e = some none := by
    intro e he
    obtain ⟨hmem, hgen⟩ := List.mem_filter.1 he
    exact drift_eq_none.2 ((hes e hmem).1.2.rendered (of_decide_eq_true hgen))
  have hgenerated : substrateGenerated s' = substrateGenerated s ++
      es.filter fun n => isSubstrateGenerated n.nodeType := by
    unfold substrateGenerated
    rw [hn, List.filter_append]
  unfold checkCanonicalBytesRenderDrift
  rw [hgenerated, List.mapM_append, mapM_drift_rendered hnew]
  cases (substrateGenerated s).mapM (drift env) with
  | none => rfl
  | some drifts =>
    have hsame : (drifts ++ (es.filter fun n => isSubstrateGenerated n.nodeType).map
        fun _ => (none : Option String)).filterMap id = drifts.filterMap id := by
      rw [List.filterMap_append, List.filterMap_map]
      simp
    simp only [Option.bind_eq_bind, Option.bind_some, Option.map_some, Option.pure_def,
      IntegrityCheckResult.verdict, hsame]

/-- Replaying passes over what is laid. -/
theorem Scans.substrateStateOrphans (h : Scans s s') (hs : ∀ n ∈ s.nodes, AbsorbsParents n)
    {errorText : DerivedStateError → String} :
    checkSubstrateStateOrphans errorText s' = checkSubstrateStateOrphans errorText s := by
  obtain ⟨es, hn, hes⟩ := h.exists_nodes
  have hderived : fromDag s'.ledger.dag = fromDag s.ledger.dag := by
    have hr := s'.ledger.recorded
    have hnodes : s'.ledger.nodes = s.ledger.nodes ++ es := hn
    rw [s'.ledger.dag_eq, s.ledger.dag_eq, hnodes]
    rw [hnodes] at hr
    exact fromDag_append hr hs fun e he => (hes e he).2.pureRecord
  have habsorbed : s'.lastAbsorbedCycle = s.lastAbsorbedCycle :=
    congrArg Live.lastAbsorbedCycle h.lays.live
  have hdiv : ∀ d, divergences s' d = divergences s d := by
    intro d
    unfold divergences
    rw [h.ownId, h.genesisTime, h.lays.cycleCounter, habsorbed]
  unfold checkSubstrateStateOrphans
  rw [hderived]
  simp only [hdiv]

theorem Scans.genesisEventUniqueness (h : Scans s s') :
    (checkGenesisEventUniqueness s').verdict = (checkGenesisEventUniqueness s).verdict := by
  have hevents : genesisEvents s'.nodes = genesisEvents s.nodes :=
    h.filter_eq fun e he => decide_eq_false (he.not_startsWith (by decide))
  unfold checkGenesisEventUniqueness
  rw [hevents]

theorem Scans.manifestCycle (h : Scans s s') :
    (checkManifestCycleVsDagAdvanceCount s').verdict =
      (checkManifestCycleVsDagAdvanceCount s).verdict := by
  have hnodes : Tropism.cycleNodes s'.nodes = Tropism.cycleNodes s.nodes :=
    h.filter_eq fun e he => decide_eq_false (he.ne (by decide))
  unfold checkManifestCycleVsDagAdvanceCount advanceSpanSum
  rw [hnodes, h.lays.cycleCounter]

end

/-! ### Parts that died in silence -/

/-- Neither the last node of the log nor a parent in it. -/
def Exposed (log : List DagNode) (h : NodeHash) : Prop :=
  h ∉ tipOf log ∧ h ∉ log.flatMap DagNode.parentHashes

/-- A node on the tip covers the tip, and leaves every other node as exposed as it was. -/
theorem exposed_concat {log : List DagNode} {e : DagNode} {h : NodeHash}
    (ht : e.parentHashes = tipOf log) (hne : h ≠ e.hash) :
    Exposed (log ++ [e]) h ↔ Exposed log h := by
  have htip : tipOf (log ++ [e]) = [e.hash] := by simp [tipOf]
  unfold Exposed
  rw [htip, List.flatMap_append, List.flatMap_singleton, ht, List.mem_singleton, List.mem_append]
  constructor
  · rintro ⟨-, hout⟩
    exact ⟨fun hm => hout (.inr hm), fun hm => hout (.inl hm)⟩
  · rintro ⟨htip, hout⟩
    exact ⟨hne, fun hm => hm.elim hout htip⟩

theorem exposed_of_grows {xs ys : List DagNode} {kind : String → Prop}
    (h : Grows (OnTip kind) xs ys) (hd : (ys.map DagNode.hash).Nodup) {n : DagNode} (hn : n ∈ xs) :
    Exposed ys n.hash ↔ Exposed xs n.hash := by
  induction h with
  | refl => rfl
  | @snoc ys e hxs he ih =>
    rw [List.map_append, List.map_singleton, List.nodup_append] at hd
    have hmem : n ∈ ys := hxs.isPrefix.subset hn
    have hne : n.hash ≠ e.hash :=
      hd.2.2 n.hash (List.mem_map_of_mem hmem) e.hash (List.mem_singleton_self _)
    exact (exposed_concat he.parents hne).trans (ih hd.1)

theorem exposed_iff {s : ServerState env} {h : NodeHash} :
    Exposed s.nodes h ↔ some h ≠ s.ledger.dag.tip ∧ h ∉ referenced s.ledger.dag := by
  have htip : s.ledger.dag.tip = (s.nodes.map DagNode.hash).getLast? := s.ledger.tip_eq
  unfold Exposed tipOf referenced
  rw [htip, Option.mem_toList]
  exact and_congr_left' (not_congr eq_comm)

/-- What is laid is of this cycle, and what was the tip is a parent now. -/
theorem Scans.silentDeaths {s s' : ServerState env} (h : Scans s s') :
    silentDeaths s' = silentDeaths s := by
  obtain ⟨es, hn, hes⟩ := h.exists_nodes
  have htombs : collectAlreadyTombstoned s'.ledger.dag = collectAlreadyTombstoned s.ledger.dag := by
    have hnone : es.filterMap killedPartHash = [] := by
      refine List.filterMap_eq_nil_iff.2 fun e he => ?_
      rw [killedPartHash, if_neg ((hes e he).2.not_startsWith (by decide))]
    show s'.nodes.filterMap killedPartHash = s.nodes.filterMap killedPartHash
    rw [hn, List.filterMap_append, hnone, List.append_nil]
  have hexposed : ∀ n ∈ s.nodes, (some n.hash ≠ s'.ledger.dag.tip ∧
      n.hash ∉ referenced s'.ledger.dag) ↔ (some n.hash ≠ s.ledger.dag.tip ∧
      n.hash ∉ referenced s.ledger.dag) := fun n hmem => by
    rw [← exposed_iff, ← exposed_iff]
    exact exposed_of_grows h.onTip.log s'.ledger.recorded.nodup hmem
  have hiter : s'.ledger.dag.iterInInsertionOrder = s.ledger.dag.iterInInsertionOrder ++ es := hn
  unfold Substrate.silentDeaths
  rw [h.lays.cycleCounter]
  split
  · rename_i hgrace
    have hnew : ∀ e ∈ es, ¬ e.createdAtCycle ≤ saturatingSub s.cycleCounter orphanGraceCycles := by
      intro e he
      have h1 : orphanGraceCycles.toNat = 1000 := rfl
      rw [gt_iff_lt, UInt64.lt_iff_toNat_lt] at hgrace
      rw [(hes e he).1.1, UInt64.le_iff_toNat_le, saturatingSub_toNat]
      omega
    dsimp only
    rw [hiter, List.filter_append, htombs]
    have hempty : ∀ p : DagNode → Prop, ∀ _ : DecidablePred p,
        (∀ e, p e → e.createdAtCycle ≤ saturatingSub s.cycleCounter orphanGraceCycles) →
        es.filter (fun e => p e) = [] := fun p _ hp =>
      List.filter_eq_nil_iff.2 fun e he hpe => hnew e he (hp e (of_decide_eq_true hpe))
    rw [hempty _ _ fun e hp => hp.1, List.append_nil]
    refine List.filter_congr fun n hmem => decide_eq_decide.2 ?_
    have hiff := hexposed n hmem
    tauto
  · rfl

theorem Scans.silentInternalMortality {s s' : ServerState env} (h : Scans s s') :
    (checkSilentInternalMortality s').verdict = (checkSilentInternalMortality s).verdict := by
  unfold checkSilentInternalMortality
  rw [h.silentDeaths]
  rfl

/-! ### A scan and the verdicts -/

section

variable {s s' : ServerState env} {errorText : DerivedStateError → String}
  {alarmsSaved witnessesSaved : Except SubstrateError PUnit} {request : Message}
  {r : Except SubstrateError (Option Message)}

theorem verdicts_eq_bind : verdicts errorText s =
    ((checkCanonicalBytesRenderDrift s).map IntegrityCheckResult.verdict).bind fun drift =>
      (checkSubstrateStateOrphans errorText s).map fun orphan =>
        [(checkSubstrateIdWellFormed s).verdict, (checkCycleCounterMonotonic s).verdict,
          (checkDagVerifyAll s).verdict, drift, ("substrate_state_orphan_detected", orphan.1),
          (checkSilentInternalMortality s).verdict, (checkGenesisEventUniqueness s).verdict,
          (checkManifestCycleVsDagAdvanceCount s).verdict] := by
  unfold verdicts runIntegrityChecks
  cases checkCanonicalBytesRenderDrift s with
  | none => rfl
  | some drift =>
    cases checkSubstrateStateOrphans errorText s with
    | none => rfl
    | some orphan => rfl

/-- Whatever a scan raises and lays down, the checks say after it what they said before. -/
theorem scan_keeps_verdicts (hs : Grown s)
    (h : (handleRunImmuneCheck errorText alarmsSaved witnessesSaved request).exec s =
      some (r, s')) :
    verdicts errorText s' = verdicts errorText s := by
  have hscan : Scans s s' := scans_handleRunImmuneCheck _ _ _ h
  rw [verdicts_eq_bind, verdicts_eq_bind, hscan.canonicalBytesRenderDrift,
    hscan.substrateStateOrphans hs.absorbsParents, hscan.substrateId, hscan.cycleCounterMonotonic,
    hscan.dagVerifyAll, hscan.silentInternalMortality, hscan.genesisEventUniqueness,
    hscan.manifestCycle]

end

/-- A scan of a substrate without an identity, over an empty log. -/
def firstScan : Handler (keyedEnv []) (Option Message) :=
  handleRunImmuneCheck (fun _ => "") (.ok ⟨⟩) (.ok ⟨⟩) ⟨"run_immune_check", 1, []⟩

theorem scan_keeps_verdicts_first : ∃ s' r,
    firstScan.exec (stateOf (keyedEnv []) []) = some (r, s') ∧ s'.nodes.length = 9 ∧
    verdicts (fun _ => "") s' =
      verdicts (fun _ => "") (stateOf (keyedEnv []) []) := by
  have hrun : (firstScan.exec (stateOf (keyedEnv []) [])).any
      (fun p => decide (p.2.nodes.length = 9)) = true := by decide +kernel
  obtain ⟨⟨r, s'⟩, h, hlen⟩ := (Option.any_eq_true _ _).1 hrun
  exact ⟨s', r, h, of_decide_eq_true hlen, scan_keeps_verdicts ⟨_, rfl, .refl⟩ h⟩

/-! ### Scanning again -/

/-- The checks, in their order. -/
def checkIds : List String :=
  ["substrate_id_well_formed", "cycle_counter_monotonic", "dag_verify_all",
    "canonical_bytes_render_drift", "substrate_state_orphan_detected", "silent_internal_mortality",
    "genesis_event_uniqueness", "manifest_cycle_vs_dag_advance_count"]

/-- Every check has a witness of the cycle. -/
def Witnessed (s : ServerState env) (cycle : UInt64) : Prop :=
  ∀ c ∈ checkIds, ∃ n ∈ s.nodes, n.createdAtCycle = cycle ∧ n.nodeType = invariantWitnessPrefix ++ c

instance (s : ServerState env) (cycle : UInt64) : Decidable (Witnessed s cycle) :=
  inferInstanceAs (Decidable (∀ c ∈ checkIds, ∃ n ∈ s.nodes, _ ∧ _))

def alarmType (r : IntegrityCheckResult) : String := immunePrefix ++ (detectorOf r.checkId).1

/-- The alarms that the results call for. -/
def alarmTypes (results : List IntegrityCheckResult) : List String :=
  (results.filter fun r => !r.passed).map alarmType

section

variable {s s' : ServerState env}

theorem mem_alreadyWitnessed {c : String} : c ∈ alreadyWitnessed s ↔
    ∃ n ∈ s.nodes, n.createdAtCycle = s.cycleCounter ∧
      n.nodeType = invariantWitnessPrefix ++ c := by
  unfold alreadyWitnessed
  simp only [List.mem_filterMap, List.mem_filter, decide_eq_true_eq, stripPrefix_eq_some, and_assoc]

theorem cbEncode_ne_nil {es : List (String × Value)} : cbEncode es ≠ [] := by
  intro hnil
  have hlen := encode_length (encode_eq_contentOf (v := mapOf es))
  rw [show contentOf (mapOf es) = [] from hnil, mapOf, Value.size] at hlen
  rw [List.length_nil] at hlen
  omega

theorem runIntegrityChecks_results {errorText : DerivedStateError → String}
    {results : List IntegrityCheckResult} (h : runIntegrityChecks errorText s = some results) :
    results.map IntegrityCheckResult.checkId = checkIds ∧ ∀ c ∈ results, c.witnessInputs ≠ [] := by
  unfold runIntegrityChecks at h
  obtain ⟨drift, hdrift, h⟩ := Option.bind_eq_some_iff.1 h
  obtain ⟨orphan, -, h⟩ := Option.bind_eq_some_iff.1 h
  cases h
  unfold checkCanonicalBytesRenderDrift at hdrift
  obtain ⟨drifts, -, hdrift⟩ := Option.bind_eq_some_iff.1 hdrift
  cases hdrift
  refine ⟨rfl, ?_⟩
  simp [checkSubstrateIdWellFormed, checkCycleCounterMonotonic, checkDagVerifyAll, orphanResult,
    checkSilentInternalMortality, checkGenesisEventUniqueness, checkManifestCycleVsDagAdvanceCount,
    cbEncode_ne_nil]

theorem emitFresh_nodes {detectorId detectorName evidence : String} {t : Int64} {k : UInt64}
    {r : Except SubstrateError NodeHash}
    (h : (emitFresh detectorId detectorName evidence t k).exec s = some (r, s')) :
    ∃ es, s'.nodes = s.nodes ++ es ∧
      (es.map DagNode.nodeType).Sublist [immunePrefix ++ detectorId] := by
  rw [emitFresh, Prog.exec_get_bind] at h
  dsimp only at h
  rcases Prog.exec_bind_eq_some.1 h with ⟨e, h1, -⟩ | ⟨hash, u, h1, h2⟩
  · rcases insertNode_tip_cases h1 (List.append_nil _).symm with ⟨e', -, hn⟩ | ⟨he, -⟩
    · exact ⟨[], by rw [hn, List.append_nil], List.nil_sublist _⟩
    · cases he
  · rcases insertNode_tip_cases h1 (List.append_nil _).symm with ⟨e', he, -⟩ | ⟨-, hn, -⟩
    · cases he
    · cases h2
      exact ⟨_, hn, List.Sublist.refl _⟩

/-- An alarm adds one node at most. -/
theorem emitImmuneSporocarp_nodes {detectorId detectorName evidence : String}
    {r : Except SubstrateError NodeHash}
    (h : (emitImmuneSporocarp detectorId detectorName evidence).exec s = some (r, s')) :
    ∃ es, s'.nodes = s.nodes ++ es ∧
      (es.map DagNode.nodeType).Sublist [immunePrefix ++ detectorId] := by
  rcases Prog.exec_bind_eq_some.1 h with ⟨e, h1, -⟩ | ⟨now, u, h1, h2⟩
  · cases h1
  · have hu : u.nodes = s.nodes := by
      cases h1
      rfl
    rw [Prog.exec_get_bind] at h2
    rw [← hu]
    split at h2
    · exact emitFresh_nodes h2
    · split at h2
      · cases h2
        exact ⟨[], (List.append_nil _).symm, List.nil_sublist _⟩
      · exact emitFresh_nodes h2

/-- The alarms of a scan, in their order: one for each check that fails, at most. -/
theorem emitAlarms_nodes {results : List IntegrityCheckResult} {count : UInt64}
    {r : Except SubstrateError UInt64} (h : (emitAlarms results count).exec s = some (r, s')) :
    ∃ es, s'.nodes = s.nodes ++ es ∧ (es.map DagNode.nodeType).Sublist (alarmTypes results) := by
  induction results generalizing s count with
  | nil =>
    cases h
    exact ⟨[], (List.append_nil _).symm, List.nil_sublist _⟩
  | cons c results ih =>
    unfold emitAlarms at h
    cases hpassed : c.passed with
    | true =>
      rw [if_pos hpassed] at h
      have hsame : alarmTypes (c :: results) = alarmTypes results := by simp [alarmTypes, hpassed]
      rw [hsame]
      exact ih h
    | false =>
      rw [if_neg (by rw [hpassed]; exact Bool.false_ne_true)] at h
      have hmore : alarmTypes (c :: results) = [alarmType c] ++ alarmTypes results := by
        simp [alarmTypes, hpassed]
      obtain ⟨answer, u, h1, h2⟩ := succeeds_attempt.exec_bind h
      obtain ⟨x, hx, -⟩ := Prog.exec_attempt_eq_some.1 h1
      obtain ⟨es, hes, hsub⟩ := emitImmuneSporocarp_nodes hx
      obtain ⟨fs, hfs, hsub'⟩ : ∃ fs, s'.nodes = u.nodes ++ fs ∧
          (fs.map DagNode.nodeType).Sublist (alarmTypes results) := by
        cases answer with
        | ok _ => exact ih h2
        | error _ => exact ih h2
      refine ⟨es ++ fs, by rw [hfs, hes, List.append_assoc], ?_⟩
      rw [hmore, List.map_append]
      exact hsub.append hsub'

/-- What has its witness gets no other. -/
theorem emitWitnesses_of_already {atCycle : UInt64} {t : Int64} {already : List String}
    {results : List IntegrityCheckResult} {count : UInt64}
    (h : ∀ c ∈ results, c.checkId ∈ already) :
    (emitWitnesses atCycle t already results count : Handler env UInt64) = pure count := by
  induction results with
  | nil => rfl
  | cons c results ih =>
    rw [List.forall_mem_cons] at h
    unfold emitWitnesses
    rw [if_pos (.inr h.1)]
    exact ih h.2

/-- What has no witness gets one, barring a collision. -/
theorem emitWitnesses_witnessed {t : Int64} {already : List String}
    {results : List IntegrityCheckResult} {count : UInt64} {r : Except SubstrateError UInt64}
    (h : (emitWitnesses s.cycleCounter t already results count).exec s = some (r, s'))
    (hc : ¬ Collided s') : ∀ c ∈ results, c.witnessInputs ≠ [] → c.checkId ∉ already →
      ∃ n ∈ s'.nodes, n.createdAtCycle = s.cycleCounter ∧
        n.nodeType = invariantWitnessPrefix ++ c.checkId := by
  induction results generalizing s count with
  | nil => exact fun c hm => absurd hm List.not_mem_nil
  | cons c results ih =>
    unfold emitWitnesses at h
    rw [List.forall_mem_cons]
    split at h
    · rename_i hskip
      refine ⟨fun hne hnot => ?_, ih h⟩
      rcases hskip with hempty | hmem
      · exact absurd (List.isEmpty_iff.1 hempty) hne
      · exact absurd hmem hnot
    · obtain ⟨answer, u, h1, h2⟩ := succeeds_attempt.exec_bind h
      obtain ⟨x, hx, -⟩ := Prog.exec_attempt_eq_some.1 h1
      have hcycle : u.cycleCounter = s.cycleCounter := (scans_witness _ _ _ hx).lays.cycleCounter
      obtain ⟨count', hrest⟩ : ∃ count', (emitWitnesses u.cycleCounter t already results
          count').exec u = some (r, s') := by
        rw [hcycle]
        cases answer with
        | ok _ => exact ⟨_, h2⟩
        | error _ => exact ⟨_, h2⟩
      have hscan : Scans u s' := scans_emitWitnesses _ _ _ hrest
      refine ⟨fun _ _ => ?_, hcycle ▸ ih hrest⟩
      have hadded := (emitSubstrateEvent_tip (ne_empty_of_startsWith startsWith_append
        (q := genesisPrefix) (by decide)) hx).holds fun hu => hc (hscan.lays.collided hu)
      obtain ⟨es, hes, -⟩ := hscan.exists_nodes
      have hlast : ∀ n, u.nodes = s.nodes ++ [n] → n ∈ s'.nodes := by
        intro n hn
        rw [hes, hn]
        simp
      exact ⟨_, hlast _ hadded.nodes, rfl, rfl⟩

end

/-! ### What a scan leaves -/

theorem succeeds_emitAlarms {results : List IntegrityCheckResult} {count : UInt64} :
    Succeeds (emitAlarms results count : Handler env UInt64) := by
  induction results generalizing count with
  | nil => exact succeeds_pure
  | cons c results ih =>
    unfold emitAlarms
    split
    · exact ih
    · refine succeeds_bind succeeds_attempt fun answer => ?_
      cases answer with
      | ok _ => exact ih
      | error _ => exact ih

section

variable {s s' t u v : ServerState env} {errorText errorText' : DerivedStateError → String}
  {alarmsSaved witnessesSaved alarmsSaved' witnessesSaved' : Except SubstrateError PUnit}
  {request request' : Message} {m : Option Message} {r : Except SubstrateError (Option Message)}

theorem saveIfAny_state {emitted : UInt64} {saved r : Except SubstrateError PUnit}
    (h : (saveIfAny emitted saved).exec s = some (r, s')) : s' = s := by
  unfold saveIfAny at h
  split at h
  · cases h
    rfl
  · cases h
    rfl

/-- A scan raises its alarms, and lays its witnesses unless the alarms could not be saved. -/
theorem scan_steps
    (h : (handleRunImmuneCheck errorText alarmsSaved witnessesSaved request).exec s =
      some (r, s')) :
    ∃ results count t, runIntegrityChecks errorText s = some results ∧
      (emitAlarms results 0).exec s = some (.ok count, t) ∧
      ((∃ e, r = .error e ∧ s' = t) ∨
        ∃ x, (emitInvariantWitnesses results).exec t = some (x, s')) := by
  rw [handleRunImmuneCheck, Prog.exec_get_bind] at h
  cases hresults : runIntegrityChecks errorText s with
  | none =>
    rw [hresults] at h
    cases h
  | some results =>
    rw [hresults] at h
    obtain ⟨count, t, halarms, h⟩ := succeeds_emitAlarms.exec_bind h
    refine ⟨results, count, t, rfl, halarms, ?_⟩
    rcases Prog.exec_bind_eq_some.1 h with ⟨e, hsave, rfl⟩ | ⟨_, t', hsave, h⟩
    · exact .inl ⟨e, rfl, saveIfAny_state hsave⟩
    · cases saveIfAny_state hsave
      rcases Prog.exec_bind_eq_some.1 h with ⟨e, hlaid, -⟩ | ⟨count', w, hlaid, h⟩
      · exact .inr ⟨_, hlaid⟩
      · refine .inr ⟨.ok count', ?_⟩
        rcases Prog.exec_bind_eq_some.1 h with ⟨e, hsave', -⟩ | ⟨_, w', hsave', h⟩
        · rw [saveIfAny_state hsave']
          exact hlaid
        · cases h
          rw [saveIfAny_state hsave']
          exact hlaid

theorem exists_result {results : List IntegrityCheckResult}
    (h : runIntegrityChecks errorText s = some results) {c : String} (hc : c ∈ checkIds) :
    ∃ result ∈ results, result.checkId = c ∧ result.witnessInputs ≠ [] := by
  obtain ⟨hids, hinputs⟩ := runIntegrityChecks_results h
  rw [← hids] at hc
  obtain ⟨result, hmem, hid⟩ := List.mem_map.1 hc
  exact ⟨result, hmem, hid, hinputs result hmem⟩

/-- A scan that ends well leaves a witness of each check, barring a collision. -/
theorem scan_witnesses
    (h : (handleRunImmuneCheck errorText alarmsSaved witnessesSaved request).exec s =
      some (.ok m, t)) (hc : ¬ Collided t) : Witnessed t s.cycleCounter := by
  obtain ⟨results, count, w, hresults, halarms, hend⟩ := scan_steps h
  have hcycle : w.cycleCounter = s.cycleCounter :=
    (scans_emitAlarms _ _ _ halarms).lays.cycleCounter
  rcases hend with ⟨e, he, -⟩ | ⟨x, hlaid⟩
  · cases he
  rw [emitInvariantWitnesses, Prog.exec_get_bind] at hlaid
  rcases Prog.exec_bind_eq_some.1 hlaid with ⟨e, hread, -⟩ | ⟨now, w', hread, hlaid⟩
  · cases hread
  have hread' := scans_readClock _ _ _ hread
  have hnodes : w'.nodes = w.nodes := by
    cases hread
    rfl
  rw [← hread'.lays.cycleCounter] at hlaid
  obtain ⟨es, hes, -⟩ := (scans_emitWitnesses _ _ _ hlaid).exists_nodes
  have hlater := emitWitnesses_witnessed hlaid hc
  rw [hread'.lays.cycleCounter, hcycle] at hlater
  intro c hmem
  obtain ⟨result, hresult, rfl, hinputs⟩ := exists_result hresults hmem
  by_cases halready : result.checkId ∈ alreadyWitnessed w
  · obtain ⟨n, hn, hn'⟩ := mem_alreadyWitnessed.1 halready
    rw [hcycle] at hn'
    exact ⟨n, by rw [hes, hnodes]; exact List.mem_append_left _ hn, hn'⟩
  · exact hlater result hresult hinputs halready

/-- After a scan that ended well, a scan of the same cycle adds no witness: all it adds are alarms,
one at most for each check that fails. -/
theorem rescan_adds_alarms
    (h : (handleRunImmuneCheck errorText alarmsSaved witnessesSaved request).exec s =
      some (.ok m, t)) (hc : ¬ Collided t) (hlog : t.nodes <+: u.nodes)
    (hcycle : u.cycleCounter = s.cycleCounter)
    (h' : (handleRunImmuneCheck errorText' alarmsSaved' witnessesSaved' request').exec u =
      some (r, v)) :
    Witnessed t s.cycleCounter ∧ ∃ results es, runIntegrityChecks errorText' u = some results ∧
      v.nodes = u.nodes ++ es ∧ (es.map DagNode.nodeType).Sublist (alarmTypes results) := by
  have hwitnessed := scan_witnesses h hc
  obtain ⟨results, count, w, hresults, halarms, hend⟩ := scan_steps h'
  obtain ⟨es, hes, hsub⟩ := emitAlarms_nodes halarms
  have hcycle' : w.cycleCounter = s.cycleCounter :=
    (scans_emitAlarms _ _ _ halarms).lays.cycleCounter.trans hcycle
  refine ⟨hwitnessed, results, es, hresults, ?_, hsub⟩
  rcases hend with ⟨e, -, rfl⟩ | ⟨x, hlaid⟩
  · exact hes
  · have halready : ∀ c ∈ results, c.checkId ∈ alreadyWitnessed w := by
      intro c hmem
      have hid : c.checkId ∈ checkIds := by
        rw [← (runIntegrityChecks_results hresults).1]
        exact List.mem_map_of_mem hmem
      obtain ⟨n, hn, hn'⟩ := hwitnessed c.checkId hid
      refine mem_alreadyWitnessed.2 ⟨n, ?_, hcycle' ▸ hn'⟩
      rw [hes]
      exact List.mem_append_left _ (hlog.subset hn)
    rw [emitInvariantWitnesses, Prog.exec_get_bind] at hlaid
    rcases Prog.exec_bind_eq_some.1 hlaid with ⟨e, hread, -⟩ | ⟨now, w', hread, hlaid⟩
    · cases hread
    · rw [emitWitnesses_of_already halready] at hlaid
      cases hread
      cases hlaid
      exact hes

end

/-- Calls of which no two have the same hash have not collided. -/
theorem sound_of_nodup {l : Ledger env.blake3}
    (h : (l.calls.map fun c => (c.node env.blake3).hash).Nodup) : l.Sound := by
  unfold Ledger.Sound CollisionFree
  rw [List.forall_mem_map]
  intro a ha
  rw [List.forall_mem_map]
  intro b hb heq
  cases List.inj_on_of_nodup_map h ha hb heq
  exact ⟨rfl, rfl⟩

theorem rescan_adds_alarms_first : ∃ t v : ServerState (keyedEnv []), t.nodes.length = 9 ∧
    Witnessed t 0 ∧ ∃ results es, runIntegrityChecks (fun _ => "") t = some results ∧
      v.nodes = t.nodes ++ es ∧ (es.map DagNode.nodeType).Sublist (alarmTypes results) := by
  have hrun : (firstScan.exec (stateOf (keyedEnv []) [])).any (fun p => p.1.isOk &&
      decide ((p.2.ledger.calls.map fun c => (c.node foldHash).hash).Nodup ∧
        p.2.nodes.length = 9 ∧ p.2.cycleCounter = 0) &&
      (firstScan.exec p.2).isSome) = true := by decide +kernel
  obtain ⟨⟨r, t⟩, h, ht⟩ := (Option.any_eq_true _ _).1 hrun
  simp only [Bool.and_eq_true, decide_eq_true_eq] at ht
  obtain ⟨⟨hok, hdistinct, hlen, hcycle⟩, hagain⟩ := ht
  obtain ⟨⟨r', v⟩, h'⟩ := Option.isSome_iff_exists.1 hagain
  cases r with
  | error e => cases hok
  | ok m =>
    exact ⟨t, v, hlen, rescan_adds_alarms h (not_not.2 (sound_of_nodup hdistinct))
      (List.prefix_refl _) hcycle h'⟩

/-! ### The spans and the counter -/

section

variable {rt : Tropism.Runtime}

theorem span_eq_decode {n : DagNode} {a b : UInt64} (h : Tropism.span n = some (a, b)) :
    decodeCycleAdvancedSpan n = some (saturatingSub b a) := by
  unfold Tropism.span at h
  unfold decodeCycleAdvancedSpan
  obtain ⟨content, hc, h⟩ := Option.bind_eq_some_iff.1 h
  obtain ⟨prior, hp, h⟩ := Option.bind_eq_some_iff.1 h
  obtain ⟨new, hn, h⟩ := Option.bind_eq_some_iff.1 h
  cases h
  rw [hc]
  simp [hp, hn]

/-- Spans that tile the way from `a` to `b` lead from `a` to `b` when they are added up. -/
theorem foldl_tiles {a b : UInt64} {ns : List DagNode} (h : Tropism.Tiles a ns b) :
    (ns.map fun n => (decodeCycleAdvancedSpan n).getD 1).foldl saturatingAdd a = b := by
  induction h with
  | nil => rfl
  | @cons a c b n ns hstep _ ih =>
    obtain ⟨hspan, hle⟩ := hstep
    have hadd : saturatingAdd a (saturatingSub c a) = c := by
      rw [UInt64.le_iff_toNat_le] at hle
      have hlt := c.toNat_lt
      refine UInt64.toNat_inj.1 ?_
      rw [saturatingAdd_toNat, saturatingSub_toNat]
      omega
    rw [List.map_cons, List.foldl_cons, span_eq_decode hspan, Option.getD_some, hadd]
    exact ih

/-- In every run from the genesis the spans in the log add up to the counter. -/
theorem spans_sum_to_counter {files : Tropism.BootFiles} {m : Tropism.Machine env rt}
    {xs : List (Tropism.Event × Option (Tropism.RealCycle rt))} (hf : files.manifest = .empty)
    (hr : Tropism.Rounds (.boot files .new) xs m) (hc : ¬ Tropism.HostCollided m.host) :
    advanceSpanSum m.host.server.nodes = m.host.server.cycleCounter ∧
      (checkManifestCycleVsDagAdvanceCount m.host.server).passed = true := by
  obtain ⟨ns, hlog, htiles⟩ := (Tropism.tolls_rounds hr).holds hc
  have hstart : (Tropism.Machine.boot files .new : Tropism.Machine env rt).host.core.cycleCounter =
      0 := by
    show (Tropism.bootState files .new : ServerState env).cycleCounter = 0
    have hnone : (Tropism.derivedState (Ledger.new : Ledger env.blake3).dag).substrateId.isSome =
        false := rfl
    simp only [Tropism.bootState, hnone, hf]
    rfl
  have hsum : advanceSpanSum m.host.server.nodes = m.host.server.cycleCounter := by
    rw [hstart] at htiles
    unfold advanceSpanSum
    rw [← Tropism.cycleNodes_log, hlog]
    exact foldl_tiles htiles
  refine ⟨hsum, ?_⟩
  unfold checkManifestCycleVsDagAdvanceCount
  rw [hsum]
  simp [absDiff]

end

theorem spans_sum_to_counter_firstHour : ∃ xs, ∃ m : Tropism.Machine Tropism.foldingEnv
      Tropism.wholeNumbers, Tropism.Rounds (.boot Tropism.noFiles .new) xs m ∧
    m.host.server.cycleCounter = 5 ∧ (Tropism.cycleNodes m.host.server.nodes).length = 4 ∧
    advanceSpanSum m.host.server.nodes = m.host.server.cycleCounter ∧
    (checkManifestCycleVsDagAdvanceCount m.host.server).passed = true := by
  obtain ⟨xs, m, hr, hc, hlived, -⟩ := Tropism.firstHour_rounds
  simp only [Tropism.livedOn, Bool.and_eq_true, beq_iff_eq] at hlived
  exact ⟨xs, m, hr, hlived.1.1, hlived.2,
    spans_sum_to_counter (show Tropism.noFiles.manifest = .empty from rfl) hr hc⟩

end Myco.Substrate
