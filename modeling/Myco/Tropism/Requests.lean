import Myco.Tropism.Mutations

/-!
# What the run loop does

The arms of `substrate/src/server/dispatch.rs` that change the gradient, and what the loop does
between requests: it seals idle cycles before each (`flushPendingSelfDriven`), and an autonomous
tick may run a cycle of its own.

The worker reads a literal by Python's grammar and the substrate by Rust's. What the worker has
accepted and the substrate cannot read is answered like the rest, and leaves no event.
-/

namespace Myco.Tropism

open Myco.Lib Myco.Canonical Myco.Schema Myco.Substrate Myco.Federation Myco.Prune

variable {env : Env} {rt : Runtime}

/-! ### Quarantine -/

def birthPeriodQuarantineEnteredType : String := "birth_period_quarantine_entered"

def birthPeriodQuarantineLiftedType : String := "birth_period_quarantine_lifted"

structure QuarantineState where
  expiresAtCycle : UInt64
  lifted : Bool

def quarantineDuration (n : DagNode) : UInt64 :=
  ((decodeMap? n.content).bind (uint? · "quarantine_duration_cycles")).getD 10

/-- One turn of the loop of `current_quarantine_state`. -/
def quarantineEvent (current : Option QuarantineState) (n : DagNode) : Option QuarantineState :=
  if n.nodeType = birthPeriodQuarantineEnteredType then
    some ⟨saturatingAdd n.createdAtCycle (quarantineDuration n), false⟩
  else if n.nodeType = birthPeriodQuarantineLiftedType then
    current.map fun q => { q with lifted := true }
  else current

def currentQuarantineState (s : ServerState env) : Option QuarantineState :=
  s.nodes.foldl quarantineEvent none

def isInBirthPeriodQuarantine (s : ServerState env) : Bool :=
  (currentQuarantineState s).any fun q => !q.lifted && s.cycleCounter < q.expiresAtCycle

def quarantineBlock {α : Type} (opName : String) : Op env rt α := do
  let evidence := s!"operation {opName} blocked: substrate is in birth-period quarantine (inherited " ++
    s!"from parent's immune signals). Operator may call lift_birth_period_quarantine after verifying " ++
    s!"signals."
  immune "C34_birth_period_violation_during_quarantine" "birth_period_violation_detected" evidence
  throw (.protocol evidence)

/-! ### Registering and perturbing -/

/-- Hands a request on to the worker. -/
def forwardToPython (messageType : MessageType) (expectedResponseType : String)
    (request : Message) : Op env rt (Reply rt) := do
  let response ← callPython messageType request.payload
  if response.messageType = expectedResponseType then pure response
  else throw (.protocol s!"expected {expectedResponseType} from python; got {response.messageType}")

/-- `Some(Value::String(s)) => s.parse().ok()` -/
def f64Item? (rt : Runtime) (payload : Payload) (field : String) : Option rt.F :=
  (string? payload field).bind rt.f64

def bool? (payload : Payload) (field : String) : Option Bool :=
  (OrdMap.get field payload).bind Value.bool?

/-- The event of a registration, if the substrate can read its fields. -/
def buildAxisRegisteredEvent (rt : Runtime) (payload : Payload) :
    Option (AxisRegisteredEvent rt) := do
  let name ← string? payload "name"
  let axisClass ← string? payload "axis_class"
  let fruitingThreshold ← f64Item? rt payload "fruiting_threshold_repr"
  let initialValue ← f64Item? rt payload "initial_value_repr"
  let decayRatePerCycle ← f64Item? rt payload "decay_rate_per_cycle_repr"
  let isMortalitySignal ← bool? payload "is_mortality_signal"
  let updateRuleKind ← string? payload "update_rule_kind"
  return ⟨name, axisClass, fruitingThreshold, initialValue, decayRatePerCycle, isMortalitySignal,
    updateRuleKind⟩

/-- What both the event and the request of a registration hold. -/
def AxisRegisteredEvent.entries (event : AxisRegisteredEvent rt) : Payload :=
  [("name", .string event.name), ("axis_class", .string event.axisClass),
    ("fruiting_threshold_repr", .string (rt.floatRepr event.fruitingThreshold)),
    ("initial_value_repr", .string (rt.floatRepr event.initialValue)),
    ("decay_rate_per_cycle_repr", .string (rt.floatRepr event.decayRatePerCycle)),
    ("is_mortality_signal", .bool event.isMortalitySignal),
    ("update_rule_kind", .string event.updateRuleKind)]

def encodeAxisRegistered (event : AxisRegisteredEvent rt) : Bytes := cbEncode event.entries

def recordAxisRegistered (payload : Payload) : Op env rt PUnit :=
  match buildAxisRegisteredEvent rt payload with
  | none => pure ⟨⟩
  | some event => do
    emit (axisRegisteredPrefix ++ event.name) (encodeAxisRegistered event)
    onServer (modify fun s => { s with axisRegisterCount := saturatingAdd s.axisRegisterCount 1 })

def registerAxis (request : Message) : Op env rt (Reply rt) := do
  let h ← get
  if isInBirthPeriodQuarantine h.server then quarantineBlock "register_axis"
  else
    let response ← forwardToPython .registerAxis "register_axis_ack" request
    recordAxisRegistered request.payload
    pure response

/-- What both the event and the request of a perturbation hold. -/
def perturbEntries (axisName : String) (delta : rt.F) : Payload :=
  [("axis_name", .string axisName), ("delta_repr", .string (rt.floatRepr delta))]

def encodeAxisPerturbed (axisName : String) (delta : rt.F) : Bytes :=
  cbEncode (perturbEntries axisName delta)

def recordAxisPerturbed (payload : Payload) : Op env rt PUnit :=
  match string? payload "axis_name", f64Item? rt payload "delta_repr" with
  | some axisName, some delta =>
    emit (axisPerturbedPrefix ++ axisName) (encodeAxisPerturbed axisName delta)
  | _, _ => pure ⟨⟩

def perturb (request : Message) : Op env rt (Reply rt) := do
  let h ← get
  if isInBirthPeriodQuarantine h.server then quarantineBlock "perturb"
  else
    let response ← forwardToPython .perturb "perturb_ack" request
    recordAxisPerturbed request.payload
    pure response

/-! ### Perturbing from raw material -/

/-- `perturb_payload(axis_name, delta)` -/
def perturbPayload (axisName : String) (delta : rt.F) : Payload :=
  OrdMap.ofList utf8 (perturbEntries axisName delta)

structure RawPerturbation where
  axisName : String
  deltaRepr : String
  rawMaterialHash : NodeHash

def readRawPerturbation (payload : Payload) : Except SubstrateError RawPerturbation :=
  match string? payload "axis_name" with
  | none => .error (.protocol "perturb_axis_from_raw_material: axis_name must be String")
  | some axisName =>
    match string? payload "delta_repr" with
    | none => .error (.protocol "perturb_axis_from_raw_material: delta_repr must be String")
    | some deltaRepr =>
      match bytes32? payload "raw_material_hash" with
      | none => .error (.protocol
          "perturb_axis_from_raw_material: raw_material_hash must be 32 bytes")
      | some rawMaterialHash => .ok ⟨axisName, deltaRepr, rawMaterialHash⟩

/-- The node is there and is raw material. -/
def checkRawMaterial (s : ServerState env) (h : NodeHash) : Except SubstrateError Unit :=
  match s.ledger.dag.get h with
  | none => .error (.protocol s!"perturb_axis_from_raw_material: raw_material_hash {
      hexEncode h.bytes} not found in DAG")
  | some n =>
    if startsWith rawMaterialPrefix n.nodeType then .ok ()
    else .error (.protocol s!"perturb_axis_from_raw_material: hash {hexEncode h.bytes} references a {
      env.debugText n.nodeType} node, not raw_material")

def encodePerturbFromRaw (p : RawPerturbation) : Bytes :=
  cbEncode [("axis_name", .string p.axisName), ("delta_repr", .string p.deltaRepr),
    ("raw_material_hash", hashValue p.rawMaterialHash)]

/-- The tip and the raw material, or the raw material alone if it is the tip. -/
def linkParents (s : ServerState env) (rawMaterialHash : NodeHash) : List NodeHash :=
  match s.ledger.tip with
  | some t => if t ≠ rawMaterialHash then [t, rawMaterialHash] else [rawMaterialHash]
  | none => [rawMaterialHash]

def insertLink (p : RawPerturbation) : Op env rt NodeHash :=
  onServer do
    let s ← get
    Substrate.insertNode "perturb_from_raw DAG insert" ⟨linkParents s p.rawMaterialHash,
      perturbFromRawPrefix ++ p.axisName, s.cycleCounter, encodePerturbFromRaw p⟩

/-- `Display` of a `ParseFloatError`. -/
def parseFloatErrorText (s : String) : String :=
  if s = "" then "cannot parse float from empty string" else "invalid float literal"

def perturbAxisFromRawMaterial (request : Message) : Op env rt (Option Message) := do
  let p ← ExceptT.mk (pure (readRawPerturbation request.payload))
  let h ← get
  let _ ← ExceptT.mk (pure (checkRawMaterial h.server p.rawMaterialHash))
  match rt.f64 p.deltaRepr with
  | none => throw (.protocol s!"delta_repr parse: {parseFloatErrorText p.deltaRepr}")
  | some delta =>
    let response ← callPython .perturb (perturbPayload p.axisName delta)
    if response.messageType = "perturb_ack" then
      let linkHash ← insertLink p
      pure (respond "perturb_axis_from_raw_material_response" request
        [("causal_link_hash", hashValue linkHash),
          ("raw_material_hash", hashValue p.rawMaterialHash)])
    else throw (.protocol s!"expected perturb_ack from python; got {response.messageType}")

/-! ### Advancing -/

/-- A cycle and the bookkeeping that follows it. -/
def runCycle : Op env rt (AdvanceResponse rt) := do
  let response ← handleAdvanceRequest
  let h ← get
  let priorCycle := h.server.cycleCounter
  let newCycle := saturatingAdd priorCycle 1
  onServer (modify fun s => { s with cycleCounter := newCycle })
  emit cycleAdvancedType (encodeCycleAdvanced priorCycle newCycle)
  let _ ← (runMigrationStep response).attempt
  pure response

def advance : Op env rt (AdvanceResponse rt) := do
  let h ← get
  if isArchived h.server then
    throw (.protocol ("advance refused: substrate is alive::archived (bet-retired); metabolism " ++
      "halted — state_dir is cold-readable only"))
  else runCycle

/-! ### Between requests -/

/-- Seals the idle cycles that are pending, in one event. -/
def flushPendingSelfDriven : Op env rt PUnit := do
  let h ← get
  if h.server.pendingSelfDrivenNoopCycles = 0 ∨ isArchived h.server then
    onServer (modify fun s => { s with pendingSelfDrivenNoopCycles := 0 })
  else
    let priorCycle := h.server.cycleCounter
    let newCycle := saturatingAdd priorCycle h.server.pendingSelfDrivenNoopCycles
    onServer (modify fun s => { s with cycleCounter := newCycle })
    emit cycleAdvancedType (encodeCycleAdvanced priorCycle newCycle)
    onServer (modify fun s => { s with pendingSelfDrivenNoopCycles := 0 })

def selfDrivenBatchMax : UInt64 := 9

def isProvablyInertForBatch (s : ServerState env) : Bool :=
  !isArchived s && s.migrationCandidate.isNone && s.axisRegisterCount == 0 && !s.federation.active

/-- A self-driven cycle, which is only counted while nothing can come of it. -/
def selfDrive : Op env rt PUnit := do
  let h ← get
  let s := h.server
  let nextPostCycle := saturatingAdd (saturatingAdd s.cycleCounter s.pendingSelfDrivenNoopCycles) 1
  if isProvablyInertForBatch s ∧ s.pendingSelfDrivenNoopCycles + 1 < selfDrivenBatchMax ∧
      ¬ shouldRunPruneScan nextPostCycle then
    onServer (modify fun s =>
      { s with pendingSelfDrivenNoopCycles := s.pendingSelfDrivenNoopCycles + 1 })
  else
    let _ ← flushPendingSelfDriven.attempt
    let _ ← runCycle.attempt
    pure ⟨⟩

/-- The part of a tick that concerns cycles and migrations. -/
def autonomousTick (selfDriven : Bool) : Op env rt PUnit := do
  let h ← get
  if selfDriven ∧ h.server.handshakeComplete ∧ ¬ isArchived h.server then selfDrive
  else pure ⟨⟩
  checkMigrationWindow

/-! ### What these leave alone -/

/-- Looks neither at what is replayed nor at the counters. -/
structure Watch.Timeless (W : Watch) : Prop where
  texts : ∀ p ∈ replayedTexts, ∀ w ∈ W.texts, Apart p w
  cycle : ∀ s c, W.see { s with cycleCounter := c } = W.see s
  pending : ∀ s n, W.see { s with pendingSelfDrivenNoopCycles := n } = W.see s
  axes : ∀ s n, W.see { s with axisRegisterCount := n } = W.see s

section

variable {W : Watch}

theorem spares_quarantineBlock {α : Type} {opName : String} :
    Within (Spares W) (quarantineBlock opName : Op env rt α) :=
  within_bind spares_immune fun _ => within_throw

theorem spares_forwardToPython {t : MessageType} {expected : String} {request : Message} :
    Within (Spares W) (forwardToPython t expected request : Op env rt (Reply rt)) := by
  refine within_bind spares_callPython fun response => ?_
  split
  · exact within_pure
  · exact within_throw

theorem spares_emit {nodeType : String} {content : Bytes} (h : ¬ Watched W.texts nodeType) :
    Within (Spares W) (emit nodeType content : Op env rt PUnit) :=
  (leaves_emit h).mono fun _ _ => Leaves.spares

theorem spares_registerAxis (ht : ∀ w ∈ W.texts, Apart axisRegisteredPrefix w)
    (hs : ∀ s n, W.see { s with axisRegisterCount := n } = W.see s) {request : Message} :
    Within (Spares W) (registerAxis request : Op env rt (Reply rt)) := by
  have hrecord : Within (Spares W) (recordAxisRegistered request.payload : Op env rt PUnit) := by
    unfold recordAxisRegistered
    split
    · exact within_pure
    · exact within_bind (spares_emit (not_watched startsWith_append ht)) fun _ =>
        spares_modify (fun _ => rfl) fun s => hs (settings s) _
  refine within_bind within_get fun h => ?_
  split
  · exact spares_quarantineBlock
  · exact within_bind spares_forwardToPython fun _ => within_bind hrecord fun _ => within_pure

theorem spares_perturb (ht : ∀ w ∈ W.texts, Apart axisPerturbedPrefix w) {request : Message} :
    Within (Spares W) (perturb request : Op env rt (Reply rt)) := by
  have hrecord : Within (Spares W) (recordAxisPerturbed request.payload : Op env rt PUnit) := by
    unfold recordAxisPerturbed
    split
    · exact spares_emit (not_watched startsWith_append ht)
    · exact within_pure
  refine within_bind within_get fun h => ?_
  split
  · exact spares_quarantineBlock
  · exact within_bind spares_forwardToPython fun _ => within_bind hrecord fun _ => within_pure

theorem spares_perturbFromRaw (ht : ∀ w ∈ W.texts, Apart perturbFromRawPrefix w)
    {request : Message} :
    Within (Spares W) (perturbAxisFromRawMaterial request : Op env rt (Option Message)) := by
  refine within_bind within_ofExcept fun p => within_bind within_get fun h =>
    within_bind within_ofExcept fun _ => ?_
  split
  · exact within_throw
  · refine within_bind spares_callPython fun response => ?_
    split
    · refine within_bind ?_ fun _ => within_pure
      exact (leaves_onServer (within_bind within_get fun s => aside_insertNode
        (not_watched startsWith_append ht))).mono fun _ _ => Leaves.spares
    · exact within_throw

theorem Watch.Timeless.registerAxis (hW : W.Timeless) {request : Message} :
    Within (Spares W) (registerAxis request : Op env rt (Reply rt)) :=
  spares_registerAxis (hW.texts _ (by simp [replayedTexts])) hW.axes

theorem Watch.Timeless.perturb (hW : W.Timeless) {request : Message} :
    Within (Spares W) (perturb request : Op env rt (Reply rt)) :=
  spares_perturb (hW.texts _ (by simp [replayedTexts]))

theorem Watch.Timeless.perturbFromRaw (hW : W.Timeless) {request : Message} :
    Within (Spares W) (perturbAxisFromRawMaterial request : Op env rt (Option Message)) :=
  spares_perturbFromRaw (hW.texts _ (by simp [replayedTexts]))

/-- The cycle and its event, without what becomes of a migration. -/
def countCycle : Op env rt (AdvanceResponse rt) := do
  let response ← handleAdvanceRequest
  let h ← get
  let priorCycle := h.server.cycleCounter
  let newCycle := saturatingAdd priorCycle 1
  onServer (modify fun s => { s with cycleCounter := newCycle })
  emit cycleAdvancedType (encodeCycleAdvanced priorCycle newCycle)
  pure response

theorem runCycle_eq : (runCycle : Op env rt (AdvanceResponse rt)) = (do
    let response ← countCycle
    let _ ← (runMigrationStep response).attempt
    pure response) := by
  simp only [runCycle, countCycle, bind_assoc, pure_bind]

theorem spares_countCycle (ht : ∀ w ∈ W.texts, Apart cycleAdvancedType w)
    (hs : ∀ s c, W.see { s with cycleCounter := c } = W.see s) :
    Within (Spares W) (countCycle : Op env rt (AdvanceResponse rt)) :=
  within_bind spares_handleAdvanceRequest fun _ => within_bind within_get fun _ =>
    within_bind (spares_modify (fun _ => rfl) fun s => hs (settings s) _) fun _ =>
    within_bind (spares_emit (not_watched_type ht)) fun _ => within_pure

theorem spares_flush (ht : ∀ w ∈ W.texts, Apart cycleAdvancedType w)
    (hc : ∀ s c, W.see { s with cycleCounter := c } = W.see s)
    (hp : ∀ s n, W.see { s with pendingSelfDrivenNoopCycles := n } = W.see s) :
    Within (Spares W) (flushPendingSelfDriven : Op env rt PUnit) := by
  refine within_bind within_get fun h => ?_
  split
  · exact spares_modify (fun _ => rfl) fun s => hp (settings s) _
  · exact within_bind (spares_modify (fun _ => rfl) fun s => hc (settings s) _) fun _ =>
      within_bind (spares_emit (not_watched_type ht)) fun _ =>
      spares_modify (fun _ => rfl) fun s => hp (settings s) _

theorem Watch.Timeless.countCycle (hW : W.Timeless) :
    Within (Spares W) (countCycle : Op env rt (AdvanceResponse rt)) :=
  spares_countCycle (hW.texts _ (by simp [replayedTexts])) hW.cycle

theorem Watch.Timeless.flush (hW : W.Timeless) :
    Within (Spares W) (flushPendingSelfDriven : Op env rt PUnit) :=
  spares_flush (hW.texts _ (by simp [replayedTexts])) hW.cycle hW.pending

end

end Myco.Tropism
