import Myco.Federation.Handlers
import Myco.Tropism.Declarations
import Myco.Tropism.Migration

/-!
# Submitting mutations

`handle_submit_mutation` of `substrate/src/attestation.rs`. The worker classifies and applies, the
substrate rules on what the worker has accepted and records it: a `Ruling` goes through the gates,
then the events follow in the order of the source.

The flags of a migration are what the worker echoes, so the migration branch does not ask for the
type of the mutation.
-/

namespace Myco.Tropism

open Myco.Lib Myco.Canonical Myco.Schema Myco.Substrate Myco.Federation

variable {env : Env} {rt : Runtime}

/-! ### Refusing unread -/

def covenantViolation (request : Message) (reason mutationType : String) : Option Message :=
  respond "submit_mutation_response" request
    [("accepted", .bool false), ("classification", .string "covenant_violation"),
      ("rejection_reason", .string reason), ("mutation_type", .string mutationType)]

def refusePreserveAll (request : Message) (mutationType : String) : Op env rt (Option Message) := do
  immune "C56_cultivator_preserve_all_attempted" "cultivator_preserve_all_attempted"
    (s!"cultivator-attempted preserve-all mutation rejected at skin: mutation_type={
      env.debugText mutationType}; COV04 §3.7 + §5.6 + P07 §3.4 enforced; substrate MUST NOT disable " ++
      s!"internal mortality discipline at cultivator request")
  pure (covenantViolation request (s!"C56: mutation_type {
    env.debugText mutationType} matches forbidden preserve-all pattern; cultivator request violates " ++
    s!"COV04") mutationType)

def refuseSuppression (request : Message) (mutationType : String) : Op env rt (Option Message) := do
  immune "C69_cultivation_orphaned_suppression_attempted" "cultivation_orphaned_suppression_attempted"
    (s!"cultivator-attempted cultivation_orphaned suppression rejected at skin: mutation_type={
      env.debugText mutationType}; COV06 §5.5 + L1/GOVERNANCE §3.2.C + P07 §4 enforced; " ++
      s!"cultivation_orphaned MUST NOT be suppressed by cultivator pressure")
  pure (covenantViolation request (s!"C69: mutation_type {
    env.debugText mutationType} attempts to suppress a due cultivation_orphaned; cultivator request " ++
    s!"violates COV06 §5.5") mutationType)

/-! ### Ruling -/

/-- What the substrate makes of a mutation, and what it has read out of its content. -/
structure Ruling where
  accepted : Bool
  rejectionReason : String
  backupEncryptionStatus : Option (String × Option String)
  ownerObjective : Option OwnerObjective
  compressionWitness : Option CompressionWitness

def Ruling.ofReport (report : MutationReport) : Ruling :=
  ⟨report.accepted, report.rejectionReason, none, none, none⟩

def Ruling.reject (reason : String) (r : Ruling) : Ruling :=
  { r with
    accepted := false
    rejectionReason := reason }

/-- What was staged, of a mutation that is still accepted. -/
def Ruling.staged {α : Type} (r : Ruling) (x : Option α) : Option α := if r.accepted then x else none

def attestationInvalid (r : Ruling) (reason evidence : String) : Op env rt Ruling := do
  immune "C5_attestation_invalid" "attestation_invalid" evidence
  pure (r.reject reason)

def inFlightReason (candidate : CandidateState) : String :=
  s!"a schema migration is already in flight (op={
    candidate.opName}); the MVP allows only one two-phase migration at a time — abort it " ++
    s!"(abort_migration) or let its dual-validation window complete before starting another"

/-- One migration at a time. -/
def guardInFlight (report : MutationReport) (r : Ruling) : Op env rt Ruling := do
  let h ← get
  match h.server.migrationCandidate with
  | none => pure r
  | some candidate =>
    if r.accepted && report.migrationMode then
      immune "C14_untyped_mutation_blocked" "schema_migration_already_in_flight"
        (inFlightReason candidate)
      pure (r.reject (inFlightReason candidate))
    else pure r

def stageBackupEncryptionStatus (report : MutationReport) (r : Ruling) : Op env rt Ruling :=
  if r.accepted && report.mutationType = "set_backup_encryption_status" then
    match decodeMap? report.contentCanonicalBytes with
    | none => attestationInvalid r
        "set_backup_encryption_status: content canonical-bytes decode failed"
        "backup_encryption_status_decode_failed"
    | some m =>
      match string? m "status" with
      | none => attestationInvalid r
          "set_backup_encryption_status: status field missing or not String"
          "backup_encryption_status_missing"
      | some status =>
        if status ∈ backupEncryptionStatusValidValues then
          pure { r with backupEncryptionStatus := some (status, string? m "key_id") }
        else attestationInvalid r
          (s!"set_backup_encryption_status: unknown status {
            env.debugText status}; allowed: [\"encrypted_externally\", " ++
            s!"\"cultivator_declined_explicit\"]") "backup_encryption_status_unknown_value"
  else pure r

def stageOwnerObjective (report : MutationReport) (r : Ruling) : Op env rt Ruling :=
  if r.accepted && report.mutationType = "owner_objective_declaration" then
    match decodeOwnerObjective rt report.contentCanonicalBytes with
    | none => attestationInvalid r "owner_objective_declaration canonical-bytes decode failed"
        "owner_objective_decode_failed"
    | some objective =>
      if objective.weights.isEmpty then
        attestationInvalid r "owner_objective_declaration: weights array MUST be non-empty"
          "owner_objective_empty_weights"
      else pure { r with ownerObjective := some objective }
  else pure r

def stageCompression (report : MutationReport) (r : Ruling) : Op env rt Ruling :=
  if r.accepted && report.mutationType = "compression" then
    match decodeCompressionWitnessMinimal report.contentCanonicalBytes with
    | none => attestationInvalid r "compression witness canonical-bytes decode failed"
        "compression_witness_decode_failed"
    | some witness => do
      let h ← get
      match witness.compressedNodeHashes.findSome?
          (compressionViolation h.server.nodes h.server.cycleCounter witness.ruleId) with
      | none => pure { r with compressionWitness := some witness }
      | some reason =>
        immune "C51_compression_invariant_corruption" "compression_invariant_corruption" reason
        pure (r.reject s!"P10.b compression_invariant_corruption: {reason}")
  else pure r

def rule (report : MutationReport) : Op env rt Ruling := do
  let r ← guardInFlight report (.ofReport report)
  let r ← stageBackupEncryptionStatus report r
  let r ← stageOwnerObjective report r
  stageCompression report r

/-! ### Recording -/

def mutationPrefix : String := "mutation:"

/-- Inserts an event on top of the tip. -/
def insertEvent (what nodeType : String) (content : Bytes) : Op env rt NodeHash :=
  onServer do
    let s ← get
    Substrate.insertNode s!"{what} DAG insert" ⟨s.tipParents, nodeType, s.cycleCounter, content⟩

/-- The detector that a rejection is laid to. -/
def rejectionDetector : String → String × String
  | "untyped" => ("C14_untyped_mutation_blocked", "untyped_mutation_blocked")
  | "contract_identity_level" => ("C5_attestation_invalid", "attestation_invalid")
  | _ => ("C_unknown", "unknown_breach")

def recordMutation (report : MutationReport) (r : Ruling) : Op env rt (Option NodeHash) := do
  if r.accepted then
    some <$> insertEvent "mutation" (mutationPrefix ++ report.mutationType)
      report.contentCanonicalBytes
  else
    let (detectorId, detectorName) := rejectionDetector report.classification
    immune detectorId detectorName s!"mutation_type={report.mutationType}; classification={
      report.classification}; reason={r.rejectionReason}"
    pure none

def commitBackupEncryptionStatus (r : Ruling) : Op env rt PUnit :=
  match r.staged r.backupEncryptionStatus with
  | none => pure ⟨⟩
  | some (status, keyId) => do
    let h ← get
    let _ ← insertEvent "backup_encryption_status_declared"
      (backupEncryptionStatusDeclaredNodeType status)
      (encodeBackupEncryptionStatusDeclared status keyId h.server.cycleCounter)
    onServer (modify fun s => { s with backupEncryptionStatus := some status })

def commitOwnerObjective (r : Ruling) : Op env rt PUnit :=
  match r.staged r.ownerObjective with
  | none => pure ⟨⟩
  | some objective => do
    let _ ← insertEvent "owner_objective_declared"
      (ownerObjectiveDeclaredPrefix ++ objective.objectiveId)
      (encodeOwnerObjectiveDeclared objective.objectiveId objective.declaredAtCycle
        (UInt64.ofNat objective.weights.length))
    onServer (modify fun s => { s with ownerObjective := some objective })

def recordCompression (r : Ruling) : Op env rt (Option NodeHash) :=
  match r.staged r.compressionWitness with
  | none => pure none
  | some witness => do
    let h ← get
    some <$> insertEvent "compression event" (compressionEventPrefix ++ witness.ruleId)
      (encodeCompressionEvent witness h.server.cycleCounter)

def recordEvolution (report : MutationReport) : Op env rt (Option NodeHash) :=
  if report.schemaApplyAttempted then
    some <$> insertEvent "evolution event"
      (evolutionNodeType report.schemaApplySucceeded report.schemaApplyOp)
      (encodeEvolutionEvent report.schemaApplyOp report.schemaApplySucceeded
        report.schemaApplySummary report.schemaApplyFailureReason)
  else pure none

/-! ### Migrating -/

/-- `CandidateState::new(..)`, which has entered validation. -/
def openWindow (report : MutationReport) : Op env rt NodeHash := do
  let startedAtUnixNs ← onServer readClock
  let h ← get
  let op := report.schemaApplyOp
  let diff := report.contentCanonicalBytes
  let cycle := h.server.cycleCounter
  let window := defaultDualValidationWindowCycles
  onServer (modify fun s => { s with
    migrationCandidate := some ⟨diff, op, cycle, window, startedAtUnixNs, .validating⟩ })
  insertEvent "schema_migration_started" (migrationStartedPrefix ++ op)
    (encodeSchemaMigrationStarted op diff cycle window startedAtUnixNs)

def buildFailure (report : MutationReport) : String :=
  if report.schemaApplyFailureReason = "" then
    "migration candidate construction failed (apply-to-copy error)"
  else report.schemaApplyFailureReason

def recordBuildFailure (report : MutationReport) : Op env rt NodeHash := do
  let h ← get
  let op := report.schemaApplyOp
  let hash ← insertEvent "schema_migration_rolled_back" (migrationRolledBackPrefix ++ op)
    (encodeSchemaMigrationRolledBack op (buildFailure report) h.server.cycleCounter)
  let _ ← insertEvent "legacy evolution_failed" (evolutionNodeType false op)
    (encodeEvolutionEvent op false "two-phase migration candidate build failed"
      (buildFailure report))
  pure hash

/-- The hashes of the event that opens a window, and of the one that says that there is none. -/
def migrate (report : MutationReport) (r : Ruling) :
    Op env rt (Option NodeHash × Option NodeHash) := do
  if r.accepted && report.migrationMode then
    if report.candidateBuilt then
      let hash ← openWindow report
      pure (some hash, none)
    else
      let hash ← recordBuildFailure report
      pure (none, some hash)
  else pure (none, none)

def abortMigration (report : MutationReport) (r : Ruling) : Op env rt PUnit := do
  let h ← get
  match h.server.migrationCandidate with
  | none => pure ⟨⟩
  | some candidate =>
    if r.accepted && report.mutationType = "abort_migration" then
      let op := candidate.opName
      let aborted ← (forceMigrationRollback op
        "operator-initiated abort_migration (CI mutation)").attempt
      match aborted with
      | .ok _ => pure ⟨⟩
      | .error e =>
        let evidence := s!"operator abort_migration (op={op}) failed: {e.text}"
        immune "C31_cycle_step_failed" "cycle_step_failed" evidence
    else pure ⟨⟩

/-! ### The handler -/

/-- What was recorded of a mutation. -/
structure Recorded where
  dagNodeHash : Option NodeHash
  compressionEventHash : Option NodeHash
  evolutionEventHash : Option NodeHash
  migrationStartedEventHash : Option NodeHash
  migrationRolledBackEventHash : Option NodeHash

def record (report : MutationReport) (r : Ruling) : Op env rt Recorded := do
  let dagNodeHash ← recordMutation report r
  commitBackupEncryptionStatus r
  commitOwnerObjective r
  let compressionEventHash ← recordCompression r
  let evolutionEventHash ← recordEvolution report
  let (started, rolledBack) ← migrate report r
  abortMigration report r
  pure ⟨dagNodeHash, compressionEventHash, evolutionEventHash, started, rolledBack⟩

def mutationResponse (request : Message) (report : MutationReport) (r : Ruling) (d : Recorded) :
    Option Message :=
  respond "submit_mutation_response" request
    ([("classification", .string report.classification), ("accepted", .bool r.accepted),
      ("rejection_reason", .string r.rejectionReason),
      ("mutation_type", .string report.mutationType)] ++
      entryIf "dag_node_hash" hashValue d.dagNodeHash ++
      [("schema_apply_attempted", .bool report.schemaApplyAttempted),
        ("schema_apply_succeeded", .bool report.schemaApplySucceeded),
        ("schema_apply_failure_reason", .string report.schemaApplyFailureReason),
        ("schema_apply_op", .string report.schemaApplyOp),
        ("schema_apply_summary", .string report.schemaApplySummary)] ++
      entryIf "evolution_event_hash" hashValue d.evolutionEventHash ++
      entryIf "compression_event_hash" hashValue d.compressionEventHash ++
      [("migration_mode", .bool report.migrationMode),
        ("candidate_built", .bool report.candidateBuilt)] ++
      entryIf "schema_migration_started_event_hash" hashValue d.migrationStartedEventHash ++
      entryIf "schema_migration_rolled_back_event_hash" hashValue d.migrationRolledBackEventHash)

/-- What a submission comes to: the worker's report, the ruling and what was recorded. -/
structure Submission where
  report : MutationReport
  ruling : Ruling
  recorded : Recorded

/-- The part of the handler that follows the two refusals. -/
def submit (payload : Payload) : Op env rt Submission := do
  match ← callPython .submitMutation payload with
  | .submitMutationResponse report =>
    let ruling ← rule report
    let recorded ← record report ruling
    pure ⟨report, ruling, recorded⟩
  | other => throw (.protocol s!"expected submit_mutation_response; got {other.messageType}")

def earlyMutationType (request : Message) : String :=
  (string? request.payload "mutation_type").getD ""

def handleSubmitMutationRequest (request : Message) : Op env rt (Option Message) := do
  let mutationType := earlyMutationType request
  if isCultivatorPreserveAllAttempt mutationType then refusePreserveAll request mutationType
  else if isCultivationOrphanedSuppressionAttempt mutationType then
    refuseSuppression request mutationType
  else
    let submission ← submit request.payload
    pure (mutationResponse request submission.report submission.ruling submission.recorded)

/-! ### What the parts of a submission stay within -/

section

variable {R : Host env rt → Host env rt → Prop} [IsPreorder (Host env rt) R]
  {report : MutationReport} {r : Ruling}

/-- A ruling raises alarms at most. -/
theorem within_rule (himmune : ∀ {detectorId detectorName evidence : String},
      Within R (immune detectorId detectorName evidence : Op env rt PUnit)) :
    Within R (rule report : Op env rt Ruling) := by
  have hinvalid : ∀ {r : Ruling} {reason evidence : String},
      Within R (attestationInvalid r reason evidence : Op env rt Ruling) :=
    within_bind himmune fun _ => within_pure
  refine within_bind ?_ fun r => within_bind ?_ fun r => within_bind ?_ fun r => ?_
  · refine within_bind within_get fun h => ?_
    cases h.server.migrationCandidate with
    | none => exact within_pure
    | some candidate => exact within_ite (within_bind himmune fun _ => within_pure) within_pure
  · unfold stageBackupEncryptionStatus
    split
    · split
      · exact hinvalid
      · split
        · exact hinvalid
        · exact within_ite within_pure hinvalid
    · exact within_pure
  · unfold stageOwnerObjective
    split
    · split
      · exact hinvalid
      · exact within_ite hinvalid within_pure
    · exact within_pure
  · unfold stageCompression
    split
    · split
      · exact hinvalid
      · refine within_bind within_get fun h => ?_
        split
        · exact within_pure
        · exact within_bind himmune fun _ => within_pure
    · exact within_pure

/-- Inserts events whose types start with `p`. -/
def Inserts (R : Host env rt → Host env rt → Prop) (p : String) : Prop :=
  ∀ {what nodeType : String} {content : Bytes}, startsWith p nodeType →
    Within R (insertEvent what nodeType content : Op env rt NodeHash)

theorem within_recordMutation (himmune : ∀ {detectorId detectorName evidence : String},
      Within R (immune detectorId detectorName evidence : Op env rt PUnit))
    (hinsert : Inserts R mutationPrefix) :
    Within R (recordMutation report r : Op env rt (Option NodeHash)) := by
  unfold recordMutation
  split
  · exact within_map (hinsert startsWith_append)
  · exact within_bind himmune fun _ => within_pure

theorem within_commitBackupEncryptionStatus
    (hinsert : Inserts R backupEncryptionStatusDeclaredPrefix)
    (hset : ∀ b, Within R
      (onServer (modify fun s => { s with backupEncryptionStatus := b }) : Op env rt PUnit)) :
    Within R (commitBackupEncryptionStatus r : Op env rt PUnit) := by
  unfold commitBackupEncryptionStatus
  split
  · exact within_pure
  · exact within_bind within_get fun _ => within_bind (hinsert startsWith_append) fun _ => hset _

theorem within_commitOwnerObjective (hinsert : Inserts R ownerObjectiveDeclaredPrefix)
    (hset : ∀ o, Within R
      (onServer (modify fun s => { s with ownerObjective := o }) : Op env rt PUnit)) :
    Within R (commitOwnerObjective r : Op env rt PUnit) := by
  unfold commitOwnerObjective
  split
  · exact within_pure
  · exact within_bind (hinsert startsWith_append) fun _ => hset _

theorem within_recordCompression (hinsert : Inserts R compressionEventPrefix) :
    Within R (recordCompression r : Op env rt (Option NodeHash)) := by
  unfold recordCompression
  split
  · exact within_pure
  · exact within_bind within_get fun _ => within_map (hinsert startsWith_append)

theorem within_recordEvolution (hsucceeded : Inserts R evolutionSucceededPrefix)
    (hfailed : Inserts R evolutionFailedPrefix) :
    Within R (recordEvolution report : Op env rt (Option NodeHash)) := by
  unfold recordEvolution
  split
  · refine within_map ?_
    cases report.schemaApplySucceeded
    · exact hfailed startsWith_append
    · exact hsucceeded startsWith_append
  · exact within_pure

theorem within_migrate (hclock : Within R (onServer readClock : Op env rt Int64))
    (hset : ∀ c, Within R
      (onServer (modify fun s => { s with migrationCandidate := c }) : Op env rt PUnit))
    (hstarted : Inserts R migrationStartedPrefix)
    (hrolledBack : Inserts R migrationRolledBackPrefix)
    (hfailed : Inserts R evolutionFailedPrefix) :
    Within R (migrate report r : Op env rt (Option NodeHash × Option NodeHash)) := by
  have hopen : Within R (openWindow report : Op env rt NodeHash) := by
    refine within_bind hclock fun _ => within_bind within_get fun h => ?_
    exact within_bind (hset _) fun _ => hstarted startsWith_append
  have hfailure : Within R (recordBuildFailure report : Op env rt NodeHash) :=
    within_bind within_get fun _ => within_bind (hrolledBack startsWith_append) fun _ =>
      within_bind (hfailed startsWith_append) fun _ => within_pure
  unfold migrate
  split
  · split
    · exact within_bind hopen fun _ => within_pure
    · exact within_bind hfailure fun _ => within_pure
  · exact within_pure

end

/-! ### What a submission leaves alone -/

/-- What the events start with that record a mutation and what it declares. -/
def recordTexts : List String :=
  [mutationPrefix, backupEncryptionStatusDeclaredPrefix, ownerObjectiveDeclaredPrefix,
    compressionEventPrefix]

/-- Looks neither at these events nor at what is declared. -/
structure Watch.Heedless (W : Watch) : Prop where
  texts : ∀ p ∈ recordTexts, ∀ w ∈ W.texts, Apart p w
  backup : ∀ s b, W.see { s with backupEncryptionStatus := b } = W.see s
  objective : ∀ s o, W.see { s with ownerObjective := o } = W.see s

section

variable {W : Watch} {report : MutationReport} {r : Ruling} {what nodeType : String}
  {content : Bytes}

/-- Ruling on a mutation changes nothing. -/
theorem leaves_rule : Within (Leaves W) (rule report : Op env rt Ruling) :=
  within_rule leaves_immune

theorem leaves_insertEvent (h : ¬ Watched W.texts nodeType) :
    Within (Leaves W) (insertEvent what nodeType content : Op env rt NodeHash) :=
  leaves_onServer (within_bind within_get fun _ => aside_insertNode h)

theorem Watch.Heedless.insertEvent (hW : W.Heedless) {p : String} (hp : p ∈ recordTexts)
    (h : startsWith p nodeType) :
    Within (Leaves W) (insertEvent what nodeType content : Op env rt NodeHash) :=
  leaves_insertEvent (not_watched h (hW.texts p hp))

theorem leaves_recordMutation (h : ∀ w ∈ W.texts, Apart mutationPrefix w) :
    Within (Leaves W) (recordMutation report r : Op env rt (Option NodeHash)) :=
  within_recordMutation leaves_immune fun hs => leaves_insertEvent (not_watched hs h)

theorem leaves_commitBackupEncryptionStatus
    (h : ∀ w ∈ W.texts, Apart backupEncryptionStatusDeclaredPrefix w)
    (hs : ∀ s b, W.see { s with backupEncryptionStatus := b } = W.see s) :
    Within (Leaves W) (commitBackupEncryptionStatus r : Op env rt PUnit) :=
  within_commitBackupEncryptionStatus (fun ht => leaves_insertEvent (not_watched ht h))
    fun _ => leaves_onServer (aside_modify (fun _ => rfl) fun s => hs (settings s) _)

theorem leaves_commitOwnerObjective (h : ∀ w ∈ W.texts, Apart ownerObjectiveDeclaredPrefix w)
    (hs : ∀ s o, W.see { s with ownerObjective := o } = W.see s) :
    Within (Leaves W) (commitOwnerObjective r : Op env rt PUnit) :=
  within_commitOwnerObjective (fun ht => leaves_insertEvent (not_watched ht h))
    fun _ => leaves_onServer (aside_modify (fun _ => rfl) fun s => hs (settings s) _)

theorem Watch.Heedless.recordMutation (hW : W.Heedless) :
    Within (Leaves W) (recordMutation report r : Op env rt (Option NodeHash)) :=
  leaves_recordMutation (hW.texts _ (by simp [recordTexts]))

theorem Watch.Heedless.commitBackupEncryptionStatus (hW : W.Heedless) :
    Within (Leaves W) (commitBackupEncryptionStatus r : Op env rt PUnit) :=
  leaves_commitBackupEncryptionStatus (hW.texts _ (by simp [recordTexts])) hW.backup

theorem Watch.Heedless.commitOwnerObjective (hW : W.Heedless) :
    Within (Leaves W) (commitOwnerObjective r : Op env rt PUnit) :=
  leaves_commitOwnerObjective (hW.texts _ (by simp [recordTexts])) hW.objective

theorem Watch.Heedless.recordCompression (hW : W.Heedless) :
    Within (Leaves W) (recordCompression r : Op env rt (Option NodeHash)) :=
  within_recordCompression (hW.insertEvent (by simp [recordTexts]))

theorem Watch.Sedentary.insertEvent (hW : W.Sedentary) {p : String} (hp : p ∈ migrationTexts)
    (h : startsWith p nodeType) :
    Within (Leaves W) (insertEvent what nodeType content : Op env rt NodeHash) :=
  leaves_insertEvent (hW.not_watched hp h)

theorem Watch.Sedentary.recordEvolution (hW : W.Sedentary) :
    Within (Leaves W) (recordEvolution report : Op env rt (Option NodeHash)) :=
  within_recordEvolution (hW.insertEvent (by simp [migrationTexts]))
    (hW.insertEvent (by simp [migrationTexts]))

theorem Watch.Sedentary.migrate (hW : W.Sedentary) :
    Within (Spares W) (migrate report r : Op env rt (Option NodeHash × Option NodeHash)) := by
  have hinserts : ∀ p ∈ migrationTexts,
      Inserts (Spares W : Host env rt → Host env rt → Prop) p :=
    fun p hp _ _ _ h => (hW.insertEvent hp h).mono fun _ _ => Leaves.spares
  exact within_migrate ((leaves_onServer aside_readClock).mono fun _ _ => Leaves.spares)
    (fun _ => spares_modify (fun _ => rfl) fun s => hW.candidate (settings s) _)
    (hinserts _ (by simp [migrationTexts])) (hinserts _ (by simp [migrationTexts]))
    (hinserts _ (by simp [migrationTexts]))

theorem Watch.Sedentary.abortMigration (hW : W.Sedentary) :
    Within (Spares W) (abortMigration report r : Op env rt PUnit) := by
  refine within_bind within_get fun h => ?_
  cases h.server.migrationCandidate with
  | none => exact within_pure
  | some candidate =>
    dsimp only
    split
    · refine within_bind (within_attempt hW.forceMigrationRollback) fun x => ?_
      cases x with
      | ok _ => exact within_pure
      | error _ => exact spares_immune
    · exact within_pure

theorem spares_record (hW : W.Heedless) (hS : W.Sedentary) :
    Within (Spares W) (record report r : Op env rt Recorded) :=
  within_bind (hW.recordMutation.mono fun _ _ => Leaves.spares) fun _ =>
    within_bind (hW.commitBackupEncryptionStatus.mono fun _ _ => Leaves.spares) fun _ =>
    within_bind (hW.commitOwnerObjective.mono fun _ _ => Leaves.spares) fun _ =>
    within_bind (hW.recordCompression.mono fun _ _ => Leaves.spares) fun _ =>
    within_bind (hS.recordEvolution.mono fun _ _ => Leaves.spares) fun _ =>
    within_bind hS.migrate fun _ => within_bind hS.abortMigration fun _ => within_pure

theorem spares_submit (hW : W.Heedless) (hS : W.Sedentary) {payload : Payload} :
    Within (Spares W) (submit payload : Op env rt Submission) := by
  refine within_bind spares_callPython fun reply => ?_
  cases reply with
  | submitMutationResponse report =>
    exact within_bind (leaves_rule.mono fun _ _ => Leaves.spares) fun _ =>
      within_bind (spares_record hW hS) fun _ => within_pure
  | registerAxisAck => exact within_throw
  | perturbAck => exact within_throw
  | advanceResponse report => exact within_throw
  | commitMigrationAck => exact within_throw
  | abortMigrationAck => exact within_throw

theorem spares_handleSubmitMutation (hW : W.Heedless) (hS : W.Sedentary) {request : Message} :
    Within (Spares W) (handleSubmitMutationRequest request : Op env rt (Option Message)) := by
  unfold handleSubmitMutationRequest
  dsimp only
  split
  · exact within_bind spares_immune fun _ => within_pure
  · split
    · exact within_bind spares_immune fun _ => within_pure
    · exact within_bind (spares_submit hW hS) fun _ => within_pure

end

/-! ### What recording does, part by part -/

/-- The first four parts do what `S` says, and then come what has evolved, what migrates and what is
aborted. -/
theorem does_record_of {report : MutationReport} {r : Ruling} {bad : Host env rt → Prop}
    {S E M A T : Host env rt → Host env rt → Prop} [IsPreorder (Host env rt) S]
    (h1 : Does bad S (recordMutation report r)) (h2 : Does bad S (commitBackupEncryptionStatus r))
    (h3 : Does bad S (commitOwnerObjective r)) (h4 : Does bad S (recordCompression r))
    (hE : Does bad E (recordEvolution report)) (hM : Does bad M (migrate report r))
    (hA : Does bad A (abortMigration report r))
    (hT : ∀ h s t u h', S h s → E s t → M t u → A u h' → T h h') :
    Does bad T (record report r : Op env rt Recorded) := by
  have hend : ∀ {d c e x y}, Does bad A
      ((abortMigration report r >>= fun _ => pure ⟨d, c, e, x, y⟩ : Op env rt Recorded)) :=
    fun {_ _ _ _ _} => does_bind hA (fun _ => does_pure (R := Eq) fun _ => rfl)
      fun s t u h1 h2 => h2 ▸ h1
  have htail : ∀ d c, Does bad (fun s h' => ∃ t u, E s t ∧ M t u ∧ A u h')
      (do
        let e ← recordEvolution report
        let (x, y) ← migrate report r
        abortMigration report r
        pure ⟨d, c, e, x, y⟩ : Op env rt Recorded) :=
    fun d c => does_bind hE (fun e => does_bind hM (fun _ => hend)
      (T := fun t h' => ∃ u, M t u ∧ A u h') fun t u h' h1 h2 => ⟨u, h1, h2⟩)
      fun s t h' h1 ⟨u, h2, h3⟩ => ⟨t, u, h1, h2, h3⟩
  have hstep : ∀ {α : Type} {m : Op env rt α} {f : α → Op env rt Recorded}, Does bad S m →
      (∀ a, Does bad (fun h h' => ∃ s t u, S h s ∧ E s t ∧ M t u ∧ A u h') (f a)) →
      Does bad (fun h h' => ∃ s t u, S h s ∧ E s t ∧ M t u ∧ A u h') (m >>= f) :=
    fun hm hf => does_bind hm hf
      (T := fun h h' => ∃ s t u, S h s ∧ E s t ∧ M t u ∧ A u h')
      fun h s h' hs ⟨s', u, v, h2, h3⟩ => ⟨s', u, v, IsTrans.trans _ _ _ hs h2, h3⟩
  have hwhole : Does bad (fun h h' => ∃ s t u, S h s ∧ E s t ∧ M t u ∧ A u h')
      (record report r : Op env rt Recorded) :=
    hstep h1 fun _ => hstep h2 fun _ => hstep h3 fun _ => does_bind h4 (fun _ => htail _ _)
      fun h t h' h1 ⟨u, v, h2⟩ => ⟨t, u, v, h1, h2⟩
  exact hwhole.mono fun h h' ⟨s, t, u, h1, h2, h3, h4⟩ => hT h s t u h' h1 h2 h3 h4

end Myco.Tropism
