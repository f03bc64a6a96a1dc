import Myco.Consensus.Tally
import Myco.Reproduction.Cosign

/-!
# Sprouting a child

`handle_sprout_child` of `substrate/src/reproduction.rs` and the arm of `dispatch` that serves it.
A parent is the running substrate with its `dag.cb`, and the logs that it has saved for children;
what a request finds outside of these, it finds in its `World`.

The checks that are made before anything is done (`spawnGates`) and the events of the child's log
(`childEvents`) are functions of what they read. A refusal appends an immune sporocarp, saves the
log if that succeeds, and fails.
-/

namespace Myco.Reproduction

open Myco.Lib Myco.Canonical Myco.Schema Myco.Substrate Myco.Federation Myco.Consensus
  Myco.Prune Myco.Tropism

variable {env : Env} {rt : Runtime}

/-! ### The discipline of reproduction -/

def reproductionLineageDepthMax : UInt64 := 10

def reproductionLifetimeQuota : UInt64 := 100

def reproductionRateMinIntervalNs : Int64 := 86400 * 1000000000

/-- What the variables `MYCO_TEST_REPRODUCTION_*` of the environment say. -/
structure Overrides where
  lineageDepthMax : Option UInt64
  lifetimeQuota : Option UInt64
  rateMinIntervalNs : Option Int64

/-- In production none of them is set. -/
def Overrides.production : Overrides := ⟨none, none, none⟩

def effectiveLineageDepthMax (o : Overrides) : UInt64 :=
  o.lineageDepthMax.getD reproductionLineageDepthMax

def effectiveLifetimeQuota (o : Overrides) : UInt64 :=
  o.lifetimeQuota.getD reproductionLifetimeQuota

def effectiveRateMinIntervalNs (o : Overrides) : Int64 :=
  o.rateMinIntervalNs.getD reproductionRateMinIntervalNs

/-! ### Parents -/

/-- `AxisSchemaInfo` of the bridge. -/
structure AxisSchemaInfo (rt : Runtime) where
  name : String
  axisClass : String
  fruitingThreshold : rt.F
  initialValue : rt.F
  currentValue : rt.F
  decayRatePerCycle : rt.F
  isMortalitySignal : Bool
  updateRuleKind : String

/-- What a request finds outside the substrate, and how its saves go. -/
structure World (rt : Runtime) where
  dagCbExists : Bool
  manifestCbExists : Bool
  createDirAll : Except SubstrateError Unit
  /-- the answer to `query_gradient_schemas`, if there is a client -/
  pythonClient : Option (Except SubstrateError (List (AxisSchemaInfo rt)))
  saveChild : Except SubstrateError Unit
  saveParent : Except SubstrateError Unit

structure Parent (env : Env) where
  server : ServerState env
  /-- `dag.cb` -/
  disk : Ledger env.blake3
  /-- the logs that it has saved for children, each with its directory -/
  children : List (String × Ledger env.blake3)

abbrev Sprouting (env : Env) := Prog (Parent env) SubstrateError

def onServer {α : Type} (m : Handler env α) : Sprouting env α :=
  Prog.zoom Parent.server (fun p s => { p with server := s }) m

def saveDagState (w : World rt) : Sprouting env PUnit :=
  match w.saveParent with
  | .ok _ => modify fun p => { p with disk := p.server.ledger }
  | .error e => throw e

/-! ### Refusing -/

structure Refusal where
  detectorId : String
  detectorName : String
  evidence : String

def refuse {α : Type} (w : World rt) (r : Refusal) : Sprouting env α := do
  let _ ← (onServer (emitImmuneSporocarp r.detectorId r.detectorName r.evidence)).attempt
  let _ ← (saveDagState w).attempt
  throw (.protocol r.evidence)

/-- A refusal of `reject_c68`. -/
def c68 (evidence : String) : Refusal :=
  ⟨"C68_reproduction_unattested_spawn", "reproduction_unattested_spawn", evidence⟩

/-! ### The attestation -/

structure VerifiedSpawnAttestation where
  mintedChildId : Hash32
  childGenesisTimestampUnixNs : Int64
  envelopeBytes : Bytes
  sporeSchemaHash : Hash32
  depthOverride : Bool

/-- `to_le_bytes()` -/
def toLeBytes (t : Int64) : Bytes := (i64Be t).reverse

def mintedMessage (parentId sporeSchemaHash : Hash32) (childGenesisTs : Int64) : Bytes :=
  parentId.bytes ++ sporeSchemaHash.bytes ++ toLeBytes childGenesisTs

/-- `Some(Value::Bytes(b)) if !b.is_empty()` -/
def filledBytes? (request : Message) (field : String) : Option Bytes :=
  (blob? request.payload field).filter fun b => !b.isEmpty

/-- The anchor timestamp in the envelope of a record of a birth. -/
def anchorOf? (n : DagNode) : Option Int64 := do
  let g ← decodeGenesisAttestedEvent n.content
  let c ← decodeSpawnCosign g.spawnCosignEnvelope
  return c.anchorTimestampUnixNs

def spawnAnchors (nodes : List DagNode) : List Int64 :=
  (nodes.filter fun n => startsWith genesisAttestedPrefix n.nodeType).filterMap anchorOf?

def lastSpawnTs (nodes : List DagNode) : Option Int64 := (spawnAnchors nodes).max?

abbrev Gate := Except (Fault Refusal)

def sporeErrorText (env : Env) : SporeError → String
  | .missingRequiredField field => s!"required spore field missing or null: {field}"
  | .canonicalBytes e => s!"canonical bytes: {env.canonicalErrorText e}"
  | .malformedSpore what => s!"malformed spore-schema: {what}"

/-- Gates 1 and 2: what is asked for is there, and the envelope decodes. -/
def readSpawn (request : Message) : Gate (Bytes × Bytes × SpawnCosign) :=
  match filledBytes? request "spawn_cosign_envelope" with
  | none => .error (.err (c68
      ("sprout_child refused (C68): missing/empty spawn_cosign_envelope — " ++
        "a child spawn requires a myco-spawn-cosign-v1 envelope (P08 §5.1: " ++
        "daily-mode spawn = doctrine collapse)")))
  | some envelopeBytes =>
    match filledBytes? request "spore_schema_canonical_bytes" with
    | none => .error (.err (c68
        ("sprout_child refused (C68): missing/empty spore_schema_canonical_bytes " ++
          "(required for I7(a) static-schema validation)")))
    | some sporeSchema =>
      match decodeSpawnCosign envelopeBytes with
      | none => .error (.err (c68
          ("sprout_child refused (C68): spawn_cosign_envelope failed to decode " ++
            "as myco-spawn-cosign-v1 (wrong domain or malformed shape)")))
      | some c => .ok (envelopeBytes, sporeSchema, c)

/-- Gate 3. -/
def checkParentId (s : ServerState env) (c : SpawnCosign) : Gate Unit :=
  if c.parentSubstrateId ≠ ownId s then
    .error (.err (c68 (s!"sprout_child refused (C68): spawn_cosign envelope.parent_substrate_id={
        hexPrefix c.parentSubstrateId.bytes 8} ≠ this substrate's id={
        hexPrefix (ownId s).bytes 8} (replay guard — an envelope minted for " ++
      "another parent cannot authorize a spawn here)")))
  else .ok ()

/-- Gate 4. -/
def checkSporeSchema (env : Env) (c : SpawnCosign) (sporeSchema : Bytes) : Gate Unit :=
  let computed := env.blake3 sporeSchema
  if computed ≠ c.sporeSchemaHash then
    .error (.err (c68 (s!"sprout_child refused (C68): blake3(spore_schema_canonical_bytes)={
        hexPrefix computed.bytes 8} ≠ co-signed envelope.spore_schema_hash={
        hexPrefix c.sporeSchemaHash.bytes 8} (I7(a) static-schema " ++
      "mismatch — the supplied spore-schema is not what the cultivator signed)")))
  else
    (validateCanonicalBytesShape sporeSchema).mapError (.map fun e => c68
      ("sprout_child refused (C68): co-signed spore-schema fails I7(a) " ++
        s!"shape validation: {sporeErrorText env e}"))

/-- Gate 6. -/
def checkRate (o : Overrides) (nodes : List DagNode) (anchorTs : Int64) : Gate Unit :=
  match lastSpawnTs nodes with
  | none => .ok ()
  | some prevTs =>
    let interval := effectiveRateMinIntervalNs o
    if anchorTs ≤ prevTs then
      .error (.err (c68 (s!"sprout_child refused (C68 via §16.B): spawn-cosign " ++
        s!"anchor_timestamp {anchorTs} ≤ prior spawn anchor_timestamp " ++
        s!"{prevTs} — anchor clock-rewind is a throttle-evasion signal " ++
        "(P06 + L1/CONTINUITY time semantics)")))
    else if saturatingSubI64 anchorTs prevTs < interval then
      .error (.err ⟨"C48_reproduction_lifetime_quota_exceeded",
        "reproduction_rate_min_interval_exceeded",
        "sprout_child refused: spawn-cosign anchor_timestamp delta " ++
          s!"{anchorTs - prevTs} ns < reproduction_rate_min_interval {interval} ns " ++
          s!"(L1/GOVERNANCE §16.B anchor-wall-clock throttle; prior spawn at {prevTs}, this at {
            anchorTs})"⟩)
    else .ok ()

def spawnGates (o : Overrides) (s : ServerState env) (request : Message) :
    Gate VerifiedSpawnAttestation := do
  let (envelopeBytes, sporeSchema, c) ← readSpawn request
  checkParentId s c
  checkSporeSchema env c sporeSchema
  checkRate o s.nodes c.anchorTimestampUnixNs
  return {
    mintedChildId := env.blake3
      (mintedMessage (ownId s) c.sporeSchemaHash c.childGenesisTimestampUnixNs)
    childGenesisTimestampUnixNs := c.childGenesisTimestampUnixNs
    envelopeBytes
    sporeSchemaHash := c.sporeSchemaHash
    depthOverride := c.depthOverride }

def verifySpawnCoAttestation (o : Overrides) (w : World rt) (request : Message) :
    Sprouting env VerifiedSpawnAttestation := do
  let p ← get
  match spawnGates o p.server request with
  | .ok a => pure a
  | .error (.err r) => refuse w r
  | .error _ => Prog.halt

/-! ### Depth and quota -/

def depthOverrideExercisedType : String := "depth_override_exercised"

/-- The depth of the child, if it may have it. -/
def checkLineageDepth (o : Overrides) (w : World rt) (a : VerifiedSpawnAttestation) :
    Sprouting env UInt64 := do
  let p ← get
  let parentDepth := p.server.generationDepth
  let childDepth := saturatingAdd parentDepth 1
  let depthMax := effectiveLineageDepthMax o
  if childDepth > depthMax then
    if a.depthOverride then
      let evidence := s!"depth_override exercised: child generation_depth {childDepth} " ++
        s!"exceeds reproduction_lineage_depth_max {depthMax} " ++
        s!"(parent.generation_depth={parentDepth}); permitted by " ++
        "cultivator-signed depth_override in the myco-spawn-cosign-v1 envelope " ++
        "(L1/GOVERNANCE §16.A / F22)."
      let _ ← (onServer (emitSubstrateEvent depthOverrideExercisedType
        (cbEncode [("child_generation_depth", .uint childDepth),
          ("reproduction_lineage_depth_max", .uint depthMax), ("evidence", .string evidence),
          ("child_substrate_id", hashValue a.mintedChildId)]))).attempt
      pure childDepth
    else
      refuse w ⟨"C47_generation_depth_exceeded", "generation_depth_exceeded",
        s!"sprout_child refused: child generation_depth {childDepth} " ++
          s!"would exceed reproduction_lineage_depth_max {depthMax} " ++
          s!"(parent.generation_depth={parentDepth}); forkbomb depth guard " ++
          "per L1/GOVERNANCE §16.A. No depth_override attested in the spawn-cosign envelope."⟩
  else pure childDepth

def sporeEmissionPrefix : String := "spore_emission:"

def childrenSpawnedCount (nodes : List DagNode) : Nat :=
  nodes.countP fun n => startsWith sporeEmissionPrefix n.nodeType

def checkLifetimeQuota (o : Overrides) (w : World rt) : Sprouting env PUnit := do
  let p ← get
  let count := UInt64.ofNat (childrenSpawnedCount p.server.nodes)
  let quota := effectiveLifetimeQuota o
  if saturatingAdd count 1 > quota then
    refuse w ⟨"C48_reproduction_lifetime_quota_exceeded", "reproduction_lifetime_quota_exceeded",
      s!"sprout_child refused: children_spawned_count {count} + 1 " ++
        s!"would exceed reproduction_lifetime_quota {quota} " ++
        "per L1/GOVERNANCE §16.C. Each over-quota spawn requires its own " ++
        "§2 attestation (no bulk); not attested."⟩

/-! ### The child -/

/-- Neither of the files is there, and the directory is. -/
def prepareChildDir (w : World rt) (childStateDir : String) : Sprouting env PUnit :=
  if w.dagCbExists then
    throw (.protocol s!"sprout_child: refusing to overwrite existing dag.cb at {childStateDir}")
  else if w.manifestCbExists then
    throw (.protocol
      s!"sprout_child: refusing to overwrite existing manifest.cb at {childStateDir}")
  else match w.createDirAll with
    | .ok _ => pure ⟨⟩
    | .error e => throw e

def queryGradientSchemas (w : World rt) : Sprouting env (List (AxisSchemaInfo rt)) :=
  match w.pythonClient with
  | none => throw (.handshake "python worker not connected")
  | some (.error e) => throw e
  | some (.ok schemas) => pure schemas

/-- What Rust does with floats here. -/
structure FloatDifference (rt : Runtime) where
  sub : rt.F → rt.F → rt.F
  /-- `!=` -/
  ne : rt.F → rt.F → Bool
  zero : rt.F
  /-- to add a difference that is zero changes nothing -/
  add_sub : ∀ x y, ne (sub x y) zero = false → ne y (rt.add y (sub x y)) = false

/-- What a child's log is made of. -/
structure Conception (rt : Runtime) where
  parentId : Hash32
  childId : Hash32
  sporeSchemaHash : Hash32
  genesisTimeUnixNs : Int64
  generationDepth : UInt64
  /-- the listener of the parent, and when it was asked for -/
  hint : Option (String × Int64)
  /-- the immune sporocarps of the parent, if it has any, and when they were read -/
  quarantine : Option (List NodeHash × Int64)
  schemas : List (AxisSchemaInfo rt)

structure ChildEvent where
  what : String
  nodeType : String
  content : Bytes

def parentFederationHintType : String := "parent_federation_hint"

def encodeParentFederationHint (parentSubstrateId : Hash32) (parentFederationAddr : String)
    (hintedAtUnixNs : Int64) : Bytes :=
  cbEncode [("parent_substrate_id", hashValue parentSubstrateId),
    ("parent_federation_addr", .string parentFederationAddr),
    ("hinted_at_unix_ns", .timestamp hintedAtUnixNs)]

def quarantineDurationCycles : UInt64 := 10

def encodeBirthPeriodQuarantineEntered (parentSubstrateId : Hash32)
    (inheritedImmuneSummary : List NodeHash) (quarantineDurationCycles : UInt64)
    (enteredAtUnixNs : Int64) : Bytes :=
  cbEncode [("parent_substrate_id", hashValue parentSubstrateId),
    ("inherited_immune_summary", .array (inheritedImmuneSummary.map hashValue)),
    ("quarantine_duration_cycles", .uint quarantineDurationCycles),
    ("entered_at_unix_ns", .timestamp enteredAtUnixNs)]

def AxisSchemaInfo.event (i : AxisSchemaInfo rt) : AxisRegisteredEvent rt :=
  ⟨i.name, i.axisClass, i.fruitingThreshold, i.initialValue, i.decayRatePerCycle,
    i.isMortalitySignal, i.updateRuleKind⟩

def AxisSchemaInfo.delta (fl : FloatDifference rt) (i : AxisSchemaInfo rt) : rt.F :=
  fl.sub i.currentValue i.initialValue

/-- An axis is registered, and perturbed by what it has gained since. -/
def axisEvents (fl : FloatDifference rt) (i : AxisSchemaInfo rt) : List ChildEvent :=
  ⟨"child axis_registered insert", axisRegisteredPrefix ++ i.name, encodeAxisRegistered i.event⟩ ::
  if fl.ne (i.delta fl) fl.zero then
    [⟨"child axis_perturbed insert", axisPerturbedPrefix ++ i.name,
      encodeAxisPerturbed i.name (i.delta fl)⟩]
  else []

def childEvents (fl : FloatDifference rt) (c : Conception rt) : List ChildEvent :=
  [⟨"child genesis_event insert", genesisEventNodeType c.childId,
      encodeGenesisEvent c.childId c.genesisTimeUnixNs c.generationDepth⟩,
    ⟨"child birth_closure_pending insert", birthClosurePendingNodeType c.parentId,
      encodeBirthClosurePending c.parentId c.childId c.sporeSchemaHash⟩] ++
  c.hint.toList.map (fun h => ⟨"parent_federation_hint insert", parentFederationHintType,
    encodeParentFederationHint c.parentId h.1 h.2⟩) ++
  c.quarantine.toList.map (fun q => ⟨"birth_period_quarantine_entered insert",
    birthPeriodQuarantineEnteredType,
    encodeBirthPeriodQuarantineEntered c.parentId q.1 quarantineDurationCycles q.2⟩) ++
  c.schemas.flatMap (axisEvents fl)

/-- `child_dag.insert_node(vec![child_dag.tip()], ..)`, with no parents for the first. -/
def insertChild (e : ChildEvent) : Prog (Ledger env.blake3) SubstrateError PUnit := do
  let l ← get
  let c : Insertion := ⟨l.tip.toList, e.nodeType, 0, e.content⟩
  if Allocates l c then
    modify (·.push c)
    match l.answer c with
    | .ok _ => pure ⟨⟩
    | .error err => throw (.protocol s!"{e.what}: {env.dagErrorText err}")
  else Prog.halt

def immuneSummary (nodes : List DagNode) : List NodeHash :=
  (nodes.filter fun n => startsWith immunePrefix n.nodeType).map DagNode.hash

def conceive (a : VerifiedSpawnAttestation) (childDepth : UInt64)
    (schemas : List (AxisSchemaInfo rt)) : Sprouting env (Conception rt) := do
  let p ← get
  let hint ← match p.server.federation.listener with
    | none => pure none
    | some listener => do
      let hintedAt ← onServer readClock
      pure (some (listener.bindAddr, hintedAt))
  let summary := immuneSummary p.server.nodes
  let quarantine ← if summary.isEmpty then pure none else do
    let enteredAt ← onServer readClock
    pure (some (summary, enteredAt))
  return ⟨ownId p.server, a.mintedChildId, a.sporeSchemaHash, a.childGenesisTimestampUnixNs,
    childDepth, hint, quarantine, schemas⟩

def buildChild (events : List ChildEvent) : Sprouting env (Ledger env.blake3) :=
  match (events.forM insertChild).exec (.new : Ledger env.blake3) with
  | none => Prog.halt
  | some (.error e, _) => throw e
  | some (.ok _, child) => pure child

/-- `save_dag(&child_dag, &child_path)` -/
def saveChild (w : World rt) (childStateDir : String) (child : Ledger env.blake3) :
    Sprouting env PUnit :=
  match w.saveChild with
  | .ok _ => modify fun p => { p with children := p.children ++ [(childStateDir, child)] }
  | .error e => throw e

/-! ### The record -/

/-- What the response says. -/
structure Sprouted where
  childSubstrateId : Hash32
  childStateDir : String
  childAxisCount : UInt64
  childGenerationDepth : UInt64
  sporeEmissionHash : NodeHash
  genesisAttestedHash : NodeHash
  childGenesisTimestampUnixNs : Int64

def encodeSporeEmission (s : ServerState env) (a : VerifiedSpawnAttestation)
    (childStateDir : String) (childAxisCount childDepth : UInt64)
    (sporeMetadata : Option Value) : Bytes :=
  cbEncode ([("child_substrate_id", hashValue a.mintedChildId),
    ("child_state_dir", .string childStateDir), ("child_axis_count", .uint childAxisCount),
    ("parent_substrate_id", hashValue (ownId s)),
    ("parent_cycle_at_emission", .uint s.cycleCounter),
    ("child_generation_depth", .uint childDepth)] ++ entryIf "spore_metadata" id sporeMetadata)

def recordBirth (request : Message) (childStateDir : String) (a : VerifiedSpawnAttestation)
    (childDepth childAxisCount : UInt64) : Sprouting env Sprouted := do
  let p ← get
  let sporeHash ← onServer (insertNode "spore_emission DAG insert" ⟨p.server.tipParents,
    sporeEmissionPrefix ++ hexPrefix a.mintedChildId.bytes 8, p.server.cycleCounter,
    encodeSporeEmission p.server a childStateDir childAxisCount childDepth
      (OrdMap.get "spore_metadata" request.payload)⟩)
  let attestedHash ← onServer (emitSubstrateEvent (genesisAttestedNodeType a.mintedChildId)
    (encodeGenesisAttestedEvent ⟨a.envelopeBytes, ownId p.server, a.mintedChildId,
      a.sporeSchemaHash, true, p.server.cycleCounter⟩))
  return ⟨a.mintedChildId, childStateDir, childAxisCount, childDepth, sporeHash, attestedHash,
    a.childGenesisTimestampUnixNs⟩

/-! ### The handler -/

/-- What precedes the save of the child's log. -/
def prepareChild (o : Overrides) (fl : FloatDifference rt) (w : World rt) (request : Message)
    (childStateDir : String) :
    Sprouting env (VerifiedSpawnAttestation × Conception rt × Ledger env.blake3) := do
  let a ← verifySpawnCoAttestation o w request
  let childDepth ← checkLineageDepth o w a
  checkLifetimeQuota o w
  prepareChildDir w childStateDir
  let schemas ← queryGradientSchemas w
  let c ← conceive a childDepth schemas
  let child ← buildChild (childEvents fl c)
  return (a, c, child)

def handleSproutChild (o : Overrides) (fl : FloatDifference rt) (w : World rt) (request : Message) :
    Sprouting env Sprouted :=
  match (string? request.payload "child_state_dir").filter fun s => !s.isEmpty with
  | none => throw (.protocol "sprout_child: child_state_dir must be a non-empty String")
  | some childStateDir => do
    let (a, c, child) ← prepareChild o fl w request childStateDir
    saveChild w childStateDir child
    recordBirth request childStateDir a c.generationDepth (UInt64.ofNat c.schemas.length)

/-- The arm `SPROUT_CHILD` of `dispatch`. -/
def sproutChild (o : Overrides) (fl : FloatDifference rt) (w : World rt) (request : Message) :
    Sprouting env Sprouted := do
  let response ← handleSproutChild o fl w request
  saveDagState w
  return response

end Myco.Reproduction
