import Myco.Tropism.Worker

/-!
# Evolving the gradient

The classifier and the schema diffs of `kernel/governance`, and the handler of `submit_mutation` in
the worker, which applies a diff to the gradient, or in migration mode to a copy of it that
becomes the candidate (`handleSubmitMutation_cases`).

A diff is decoded by Python's decoder, from which no string comes that has surrogates. An
`expect_*` helper that raises while a diff is applied, or over the names that a mutation touches,
is not caught by anyone, and the worker is gone.
-/

namespace Myco.Tropism

open Myco.Lib Myco.Canonical Myco.Substrate

variable {rt : Runtime}

/-! ### The classifier -/

inductive Classification where
  | daily
  | contractIdentityLevel
  | untyped
deriving DecidableEq

def Classification.value : Classification → String
  | .daily => "daily"
  | .contractIdentityLevel => "contract_identity_level"
  | .untyped => "untyped"

structure MutationEnvelope where
  mutationType : String
  touchedFields : List String
  touchedFiles : List String
  touchedMetaStructures : List String

/-- What a rule looks at: every row of the table sets one of the four. -/
inductive RulePredicate where
  | filePathPrefix (path : String)
  | fieldName (name : String)
  | metaStructureName (name : String)
  | mutationType (type : String)

def RulePredicate.matchesEnvelope (env : MutationEnvelope) : RulePredicate → Bool
  | .filePathPrefix path => env.touchedFiles.any (startsWith path ·)
  | .fieldName name => name ∈ env.touchedFields
  | .metaStructureName name => name ∈ env.touchedMetaStructures
  | .mutationType type => type = env.mutationType

structure ClassifierRule where
  name : String
  classification : Classification
  predicate : RulePredicate

def seedDimensionTable : List ClassifierRule :=
  [⟨"l0_file_touched", .contractIdentityLevel, .filePathPrefix "docs/architecture/L0/"⟩,
   ⟨"l1_file_touched", .contractIdentityLevel, .filePathPrefix "docs/architecture/L1/"⟩,
   ⟨"substrate_id_field", .contractIdentityLevel, .fieldName "substrate_id"⟩,
   ⟨"dag_tip_hash_field", .contractIdentityLevel, .fieldName "dag_tip_hash"⟩,
   ⟨"classifier_dimension_table_meta", .contractIdentityLevel,
    .metaStructureName "classifier_dimension_table"⟩,
   ⟨"mortality_signal_threshold_meta", .contractIdentityLevel,
    .metaStructureName "mortality_signal_threshold"⟩,
   ⟨"mortality_signal_update_rule_meta", .contractIdentityLevel,
    .metaStructureName "mortality_signal_update_rule"⟩,
   ⟨"threshold_emergence_rule_meta", .contractIdentityLevel,
    .metaStructureName "threshold_emergence_rule"⟩,
   ⟨"appetite_axis_schema_meta", .contractIdentityLevel,
    .metaStructureName "appetite_axis_schema"⟩,
   ⟨"sporocarp_type_tree_meta", .contractIdentityLevel, .metaStructureName "sporocarp_type_tree"⟩,
   ⟨"skin_surface_declaration_meta", .contractIdentityLevel,
    .metaStructureName "skin_surface_declaration"⟩,
   ⟨"ssot_designation_meta", .contractIdentityLevel, .metaStructureName "ssot_designation"⟩,
   ⟨"dag_retention_policy_meta", .contractIdentityLevel, .metaStructureName "dag_retention_policy"⟩,
   ⟨"federation_peer_attestation_list_meta", .contractIdentityLevel,
    .metaStructureName "federation_peer_attestation_list"⟩,
   ⟨"revoke_federation_peer_mutation", .contractIdentityLevel,
    .mutationType "revoke_federation_peer"⟩,
   ⟨"schema_evolution_mutation", .contractIdentityLevel, .mutationType "schema_evolution"⟩,
   ⟨"abort_migration_mutation", .contractIdentityLevel, .mutationType "abort_migration"⟩,
   ⟨"compression_mutation", .contractIdentityLevel, .mutationType "compression"⟩,
   ⟨"compression_rule_registry_meta", .contractIdentityLevel,
    .metaStructureName "compression_rule_registry"⟩,
   ⟨"compression_invariant_set_meta", .contractIdentityLevel,
    .metaStructureName "compression_invariant_set"⟩,
   ⟨"cost_budget_set_mutation", .contractIdentityLevel, .mutationType "cost_budget_set"⟩,
   ⟨"cost_budget_thresholds_meta", .contractIdentityLevel,
    .metaStructureName "cost_budget_thresholds"⟩,
   ⟨"owner_objective_declaration_mutation", .contractIdentityLevel,
    .mutationType "owner_objective_declaration"⟩,
   ⟨"telos_alignment_metric_meta", .contractIdentityLevel,
    .metaStructureName "telos_alignment_metric_definition"⟩,
   ⟨"daily_delta_absorb", .daily, .mutationType "delta_absorb"⟩,
   ⟨"daily_gradient_update_non_mortality", .daily, .mutationType "gradient_update_non_mortality"⟩,
   ⟨"daily_sporocarp_fruit", .daily, .mutationType "sporocarp_fruit"⟩,
   ⟨"daily_federation_coupling", .daily, .mutationType "federation_coupling"⟩,
   ⟨"mortality_signal_gradient_update", .contractIdentityLevel,
    .mutationType "gradient_update_mortality"⟩,
   ⟨"set_backup_encryption_status", .contractIdentityLevel,
    .mutationType "set_backup_encryption_status"⟩,
   ⟨"update_successor_chain_mutation", .contractIdentityLevel,
    .mutationType "update_successor_chain"⟩,
   ⟨"accept_succession_mutation", .contractIdentityLevel, .mutationType "accept_succession"⟩,
   ⟨"cultivation_successor_chain_meta", .contractIdentityLevel,
    .metaStructureName "cultivation_successor_chain"⟩]

/-- The strongest grade of the rules that match. The handler leaves the context at its default,
so the birth period does not elevate anything. -/
def classify (mutation : MutationEnvelope) : Classification :=
  let matched := seedDimensionTable.filter (·.predicate.matchesEnvelope mutation)
  if matched.isEmpty then .untyped
  else if matched.any (·.classification = .contractIdentityLevel) then .contractIdentityLevel
  else if matched.any (·.classification = .daily) then .daily
  else .untyped

/-- A schema evolution is graded by its own row, whatever it touches. -/
theorem classify_schemaEvolution {mutation : MutationEnvelope}
    (h : mutation.mutationType = "schema_evolution") :
    classify mutation = .contractIdentityLevel := by
  have hrow : (⟨"schema_evolution_mutation", .contractIdentityLevel,
      .mutationType "schema_evolution"⟩ : ClassifierRule) ∈
        seedDimensionTable.filter (·.predicate.matchesEnvelope mutation) := by
    refine List.mem_filter.2 ⟨by simp [seedDimensionTable], ?_⟩
    simp [RulePredicate.matchesEnvelope, h]
  have hany : (seedDimensionTable.filter (·.predicate.matchesEnvelope mutation)).any
      (·.classification = .contractIdentityLevel) = true :=
    List.any_eq_true.2 ⟨_, hrow, by decide⟩
  unfold classify
  dsimp only
  rw [if_neg (fun he => by rw [List.isEmpty_iff.1 he] at hrow; cases hrow), if_pos hany]

/-! ### Schema diffs -/

inductive SchemaDiffOp where
  | modifyAxisThreshold
  | addAxisToGradient
deriving DecidableEq

def SchemaDiffOp.value : SchemaDiffOp → String
  | .modifyAxisThreshold => "modify_axis_threshold"
  | .addAxisToGradient => "add_axis_to_gradient"

def SchemaDiffOp.ofString? : String → Option SchemaDiffOp
  | "modify_axis_threshold" => some .modifyAxisThreshold
  | "add_axis_to_gradient" => some .addAxisToGradient
  | _ => none

structure SchemaDiff where
  op : SchemaDiffOp
  axisName : String
  params : List (Py.Str × Py.Value)

def SchemaDiff.summary (rt : Runtime) (diff : SchemaDiff) : String :=
  s!"{diff.op.value}({diff.axisName}; {rt.paramsRepr diff.params})"

/-- `type(value).__name__` -/
def pyTypeName : Py.Value → String
  | .null => "Null"
  | .bool _ => "Bool"
  | .int _ => "Int"
  | .uint _ => "Uint"
  | .string _ => "String"
  | .bytes _ => "Bytes"
  | .array _ => "Array"
  | .map _ => "Map"
  | .timestamp _ => "Timestamp"
  | .hash _ => "Hash"

def Py.string? : Py.Value → Option String
  | .string s => scalars? s
  | _ => none

def pyExpectString (v : Py.Value) : Except PyError String :=
  match Py.string? v with
  | some s => .ok s
  | none => .error (.canonicalBytes s!"expect_string: not a String: {pyTypeName v}")

/-- `keys[key]`, of a map that has been decoded. -/
def pyStringItem (entries : List (Py.Str × Py.Value)) (key : String) : Except PyError String :=
  match Py.mapGet entries (codePoints key) with
  | some v => pyExpectString v
  | none => .error (.keyError key)

def diffKeyError (e : PyError) : String :=
  match e with
  | .keyError _ => s!"schema_diff missing required key: {e.text}"
  | e => s!"schema_diff key type error: {e.text}"

/-- The diff, or the text of the `SchemaEvolutionError`. -/
def parseSchemaDiff (rt : Runtime) (diffCanonicalBytes : Bytes) : Except String SchemaDiff := do
  let decoded ← (Py.decode diffCanonicalBytes).mapError fun e =>
    s!"schema_diff decode failed: {rt.decodeErrorText e}"
  let keys ← match decoded with
    | .map entries => pure entries
    | other => .error s!"schema_diff is not a Map: expect_map: not a Map: {pyTypeName other}"
  let opStr ← (pyStringItem keys "op").mapError diffKeyError
  let axisName ← (pyStringItem keys "axis_name").mapError diffKeyError
  let op ← match SchemaDiffOp.ofString? opStr with
    | some op => pure op
    | none => .error s!"schema_diff unknown op: {rt.strRepr opStr
        }; allowed: ['modify_axis_threshold', 'add_axis_to_gradient']"
  return ⟨op, axisName, keys.filter fun e => e.1 ≠ codePoints "op" ∧ e.1 ≠ codePoints "axis_name"⟩

/-! ### Applying a diff -/

def applyModifyAxisThreshold (diff : SchemaDiff) (gradient : GradientConfiguration rt) :
    Except PyError (GradientConfiguration rt) :=
  match Py.mapGet diff.params (codePoints "new_threshold_repr") with
  | none => .error (.schemaEvolution "modify_axis_threshold: missing new_threshold_repr")
  | some value => do
    let newThresholdRepr ← pyExpectString value
    let newThreshold ← (@toFloat rt newThresholdRepr).mapError fun e =>
      .schemaEvolution s!"modify_axis_threshold: new_threshold_repr {
        rt.strRepr newThresholdRepr} parse: {e.text}"
    if diff.axisName ∈ gradient.names then
      return gradient.modifyAxis diff.axisName (Slot.setThreshold newThreshold)
        fun _ => Slot.name_setThreshold
    else .error (.gradient (.axisNotFound diff.axisName))

/-- `_opt_string(key)` -/
def optString (diff : SchemaDiff) (key : String) : Except PyError (Option String) :=
  match Py.mapGet diff.params (codePoints key) with
  | none => .ok none
  | some value => some <$> pyExpectString value

def addAxisFloat (s : String) : Except PyError rt.F :=
  (toFloat s).mapError fun e => .schemaEvolution s!"add_axis_to_gradient: float repr parse: {e.text}"

def readIsMortalitySignal (diff : SchemaDiff) : Except PyError Bool :=
  match Py.mapGet diff.params (codePoints "is_mortality_signal") with
  | none => .error (.schemaEvolution "add_axis_to_gradient: missing is_mortality_signal")
  | some (.bool b) => .ok b
  | some other => .error (.schemaEvolution (s!"add_axis_to_gradient: is_mortality_signal must be " ++
      s!"Bool; got {pyTypeName other}"))

def applyAddAxis (diff : SchemaDiff) (gradient : GradientConfiguration rt) :
    Except PyError (GradientConfiguration rt) := do
  let axisClass ← match ← optString diff "axis_class" with
    | none => .error (.schemaEvolution "add_axis_to_gradient: missing axis_class")
    | some axisClassStr =>
      match AxisClass.ofString? axisClassStr with
      | none => .error (.schemaEvolution s!"add_axis_to_gradient: unknown axis_class {
          rt.strRepr axisClassStr}")
      | some axisClass => pure axisClass
  let thresholdRepr? ← optString diff "fruiting_threshold_repr"
  let initialRepr? ← optString diff "initial_value_repr"
  let decayRepr? ← optString diff "decay_rate_per_cycle_repr"
  let updateRuleKind? ← optString diff "update_rule_kind"
  match thresholdRepr?, initialRepr?, decayRepr?, updateRuleKind? with
  | some thresholdRepr, some initialRepr, some decayRepr, some updateRuleKind =>
    let isMortalitySignal ← readIsMortalitySignal diff
    let fruitingThreshold ← addAxisFloat thresholdRepr
    let initialValue ← addAxisFloat initialRepr
    let decayRate ← addAxisFloat decayRepr
    let rule ← match UpdateRule.ofString? updateRuleKind with
      | some rule => pure rule
      | none => .error (.schemaEvolution s!"add_axis_to_gradient: unknown update_rule_kind {
          rt.strRepr updateRuleKind}")
    (gradient.registerAxis ⟨diff.axisName, axisClass, fruitingThreshold, initialValue, decayRate,
      isMortalitySignal⟩ rule).mapError .gradient
  | _, _, _, _ => .error (.schemaEvolution ("add_axis_to_gradient: missing one of " ++
      "fruiting_threshold_repr / initial_value_repr / decay_rate_per_cycle_repr / update_rule_kind"))

/-- `type(e).__name__` -/
def GradientError.className : GradientError → String
  | .axisAlreadyRegistered _ => "AxisAlreadyRegistered"
  | .axisNotFound _ => "AxisNotFound"

/-- What both ways of applying a diff do: the gradient with the diff applied or the reason why
not, unless an exception escapes. -/
def attemptSchemaDiff (diff : SchemaDiff) (gradient : GradientConfiguration rt) :
    Except PyError (Except String (GradientConfiguration rt)) :=
  let applied := match diff.op with
    | .modifyAxisThreshold => applyModifyAxisThreshold diff gradient
    | .addAxisToGradient => applyAddAxis diff gradient
  match applied with
  | .ok gradient => .ok (.ok gradient)
  | .error (.schemaEvolution text) => .ok (.error text)
  | .error (.gradient e) => .ok (.error s!"{e.className}: {e.text}")
  | .error (.valueError text) => .ok (.error s!"ValueError: {text}")
  | .error (.keyError key) => .ok (.error s!"KeyError: {(PyError.keyError key).text}")
  | .error e => .error e

/-- The failure reason, if there is one, and the gradient, restored from the snapshot if so. -/
def applySchemaDiff (diff : SchemaDiff) (gradient : GradientConfiguration rt) :
    Except PyError (Option String × GradientConfiguration rt) := do
  match ← attemptSchemaDiff diff gradient with
  | .ok evolved => return (none, evolved)
  | .error reason => return (some reason, gradient)

/-- The candidate, or the failure reason. -/
def applySchemaDiffToCopy (diff : SchemaDiff) (gradient : GradientConfiguration rt) :
    Except PyError (Except String (GradientConfiguration rt)) := attemptSchemaDiff diff gradient

/-! ### Submitting a mutation -/

/-- The fields of a `submit_mutation` request that are read in one `try`. -/
structure MutationFields where
  mutationType : String
  contentBytes : Bytes
  touchedFields : List Value
  touchedFiles : List Value
  touchedMetaStructures : List Value

def readMutation (payload : Payload) : Except PyError MutationFields := do
  let mutationType ← stringItem payload "mutation_type"
  let contentBytes ← item payload "content_canonical_bytes" >>= expectBytes
  let touchedFields ← item payload "touched_fields" >>= expectArray
  let touchedFiles ← item payload "touched_files" >>= expectArray
  let touchedMetaStructures ← item payload "touched_meta_structures" >>= expectArray
  return ⟨mutationType, contentBytes, touchedFields, touchedFiles, touchedMetaStructures⟩

def mutationError (e : PyError) : PyError := .bridgeProtocol s!"submit_mutation payload error: {e.text}"

/-- The names in an array: what is no string is not caught. -/
def touchedNames (items : List Value) : Except PyError (List String) := items.mapM expectString

def untypedRejection : String :=
  "untyped mutation (no classifier rule matched); L1/HARD_RULES C14 untyped_mutation_blocked"

def readMigrationMode (payload : Payload) : Except PyError Bool :=
  match OrdMap.get "migration_mode" payload with
  | none => .ok false
  | some value => (expectBool value).mapError fun e =>
    .bridgeProtocol s!"submit_mutation migration_mode must be Bool: {e.text}"

/-- What has become of the diff. -/
structure EvolutionOutcome where
  schemaApplyAttempted : Bool
  schemaApplySucceeded : Bool
  schemaApplyFailureReason : String
  schemaApplyOp : String
  schemaApplySummary : String
  candidateBuilt : Bool

def MutationReport.evolution (report : MutationReport) : EvolutionOutcome :=
  ⟨report.schemaApplyAttempted, report.schemaApplySucceeded, report.schemaApplyFailureReason,
    report.schemaApplyOp, report.schemaApplySummary, report.candidateBuilt⟩

def EvolutionOutcome.none : EvolutionOutcome := ⟨false, false, "", "", "", false⟩

/-- The diff applied to a copy, which becomes the candidate, whichever candidate there was. -/
def buildCandidate (w : DispatcherState rt) (diff : SchemaDiff) (contentBytes : Bytes) :
    Except PyError (EvolutionOutcome × DispatcherState rt) := do
  match ← applySchemaDiffToCopy diff w.gradient with
  | .ok candidate =>
    return (⟨false, false, "", diff.op.value, diff.summary rt, true⟩,
      { w with
        candidateGradient := some candidate
        candidateOp := diff.op.value
        candidateDiffBytes := contentBytes })
  | .error reason => return (⟨false, false, reason, diff.op.value, diff.summary rt, false⟩, w)

/-- The diff applied to the gradient itself. -/
def evolveGradient (w : DispatcherState rt) (diff : SchemaDiff) :
    Except PyError (EvolutionOutcome × DispatcherState rt) := do
  let (failure, gradient) ← applySchemaDiff diff w.gradient
  return (⟨true, failure.isNone, failure.getD "", diff.op.value, diff.summary rt, false⟩,
    { w with gradient })

def evolve (w : DispatcherState rt) (contentBytes : Bytes) (migrationMode : Bool) :
    Except PyError (EvolutionOutcome × DispatcherState rt) :=
  match parseSchemaDiff rt contentBytes with
  | .error e => .ok (⟨!migrationMode, false, s!"schema_diff parse: {e}", "", "", false⟩, w)
  | .ok diff => if migrationMode then buildCandidate w diff contentBytes else evolveGradient w diff

def schemaEvolutionType : String := "schema_evolution"

def handleSubmitMutation (w : DispatcherState rt) (payload : Payload) : Handled rt := do
  let fields ← (readMutation payload).mapError mutationError
  let touchedFields ← touchedNames fields.touchedFields
  let touchedFiles ← touchedNames fields.touchedFiles
  let touchedMeta ← touchedNames fields.touchedMetaStructures
  let classification :=
    classify ⟨fields.mutationType, touchedFields, touchedFiles, touchedMeta⟩
  let accepted : Bool := classification ≠ .untyped
  let migrationMode ← readMigrationMode payload
  let (outcome, w) ← if accepted ∧ fields.mutationType = schemaEvolutionType then
      evolve w fields.contentBytes migrationMode
    else pure (.none, w)
  return (.submitMutationResponse
    { classification := classification.value
      accepted
      rejectionReason := if accepted then "" else untypedRejection
      contentCanonicalBytes := fields.contentBytes
      mutationType := fields.mutationType
      schemaApplyAttempted := outcome.schemaApplyAttempted
      schemaApplySucceeded := outcome.schemaApplySucceeded
      schemaApplyFailureReason := outcome.schemaApplyFailureReason
      schemaApplyOp := outcome.schemaApplyOp
      schemaApplySummary := outcome.schemaApplySummary
      migrationMode
      candidateBuilt := outcome.candidateBuilt }, w)

/-! ### The worker -/

def dispatch (w : DispatcherState rt) : MessageType → Payload → Handled rt
  | .registerAxis, payload => handleRegisterAxis w payload
  | .perturb, payload => handlePerturb w payload
  | .advance, payload => handleAdvance w payload
  | .submitMutation, payload => handleSubmitMutation w payload
  | .commitMigration, _ => handleCommitMigration w
  | .abortMigration, _ => handleAbortMigration w

/-! ### What evolving does -/

variable {w w' : DispatcherState rt} {contentBytes : Bytes} {migrationMode : Bool}
  {outcome : EvolutionOutcome}

/-- The gradient that the diff in some bytes makes of another. -/
def Evolves (contentBytes : Bytes) (gradient evolved : GradientConfiguration rt) : Prop :=
  ∃ diff, parseSchemaDiff rt contentBytes = .ok diff ∧
    attemptSchemaDiff diff gradient = .ok (.ok evolved)

/-- A candidate is built in migration mode, and replaces the one there was; the gradient changes in
the other mode. -/
theorem evolve_cases (h : evolve w contentBytes migrationMode = .ok (outcome, w')) :
    (w' = w ∧ outcome.candidateBuilt = false ∧ outcome.schemaApplySucceeded = false) ∨
    (migrationMode = true ∧ outcome.candidateBuilt = true ∧ outcome.schemaApplySucceeded = false ∧
      outcome.schemaApplyAttempted = false ∧
      ∃ candidate, Evolves contentBytes w.gradient candidate ∧
        w' = { w with
          candidateGradient := some candidate
          candidateOp := outcome.schemaApplyOp
          candidateDiffBytes := contentBytes }) ∨
    (migrationMode = false ∧ outcome.candidateBuilt = false ∧ outcome.schemaApplySucceeded = true ∧
      ∃ evolved, Evolves contentBytes w.gradient evolved ∧ w' = { w with gradient := evolved }) := by
  unfold evolve at h
  cases hp : parseSchemaDiff rt contentBytes with
  | error e =>
    rw [hp] at h
    cases h
    exact .inl ⟨rfl, rfl, rfl⟩
  | ok diff =>
    rw [hp] at h
    cases migrationMode with
    | true =>
      obtain ⟨result, h1, h2⟩ := bind_eq_ok.1 (show buildCandidate w diff contentBytes = _ from h)
      cases result with
      | ok candidate =>
        cases h2
        exact .inr (.inl ⟨rfl, rfl, rfl, rfl, candidate, ⟨diff, hp, h1⟩, rfl⟩)
      | error reason =>
        cases h2
        exact .inl ⟨rfl, rfl, rfl⟩
    | false =>
      obtain ⟨⟨failure, gradient⟩, h1, h2⟩ := bind_eq_ok.1 (show evolveGradient w diff = _ from h)
      obtain ⟨result, h3, h4⟩ := bind_eq_ok.1 h1
      cases h2
      cases result with
      | ok evolved =>
        cases h4
        exact .inr (.inr ⟨rfl, rfl, rfl, gradient, ⟨diff, hp, h3⟩, rfl⟩)
      | error reason =>
        cases h4
        exact .inl ⟨rfl, rfl, rfl⟩

/-- The diff is applied at once, or not at once, in whichever mode was asked for. -/
theorem evolve_attempted (h : evolve w contentBytes migrationMode = .ok (outcome, w')) :
    outcome.schemaApplyAttempted = !migrationMode := by
  unfold evolve at h
  cases hp : parseSchemaDiff rt contentBytes with
  | error e =>
    rw [hp] at h
    cases h
    rfl
  | ok diff =>
    rw [hp] at h
    cases migrationMode with
    | true =>
      obtain ⟨result, -, h2⟩ := bind_eq_ok.1 (show buildCandidate w diff contentBytes = _ from h)
      cases result <;>
      · cases h2
        rfl
    | false =>
      obtain ⟨⟨failure, gradient⟩, -, h2⟩ := bind_eq_ok.1 (show evolveGradient w diff = _ from h)
      cases h2
      rfl

theorem Evolves.unique {g g1 g2 : GradientConfiguration rt} (h1 : Evolves contentBytes g g1)
    (h2 : Evolves contentBytes g g2) : g1 = g2 := by
  obtain ⟨d1, hp1, ha1⟩ := h1
  obtain ⟨d2, hp2, ha2⟩ := h2
  rw [hp1] at hp2
  cases hp2
  rw [ha1] at ha2
  cases ha2
  rfl

/-! ### What submitting does -/

/-- What the classifier is shown of a mutation, if it can be read. -/
def envelope? (payload : Payload) : Option MutationEnvelope := do
  let fields ← (readMutation payload).toOption
  let touchedFields ← (touchedNames fields.touchedFields).toOption
  let touchedFiles ← (touchedNames fields.touchedFiles).toOption
  let touchedMeta ← (touchedNames fields.touchedMetaStructures).toOption
  return ⟨fields.mutationType, touchedFields, touchedFiles, touchedMeta⟩

/-- What the worker reports of a submission, and what it does. -/
structure Submitted (w : DispatcherState rt) (payload : Payload) (report : MutationReport)
    (w' : DispatcherState rt) : Prop where
  mutationType : OrdMap.get "mutation_type" payload = some (.string report.mutationType)
  content : OrdMap.get "content_canonical_bytes" payload =
    some (.bytes report.contentCanonicalBytes)
  graded : ∃ mutation, envelope? payload = some mutation ∧
    mutation.mutationType = report.mutationType ∧
    report.accepted = decide (classify mutation ≠ .untyped)
  mode : readMigrationMode payload = .ok report.migrationMode
  evolves : report.mutationType = schemaEvolutionType →
    evolve w report.contentCanonicalBytes report.migrationMode = .ok (report.evolution, w')
  idle : report.mutationType ≠ schemaEvolutionType → w' = w ∧ report.evolution = .none

theorem expect_eq_ok {α : Type} {complaint : String} {take : Value → Option α} {v : Value} {a : α} :
    expect complaint take v = .ok a ↔ take v = some a := by
  unfold expect
  cases take v <;> simp

theorem item_expect_eq_ok {α : Type} {payload : Payload} {key complaint : String}
    {take : Value → Option α} {a : α} :
    (item payload key >>= expect complaint take) = .ok a ↔
      (OrdMap.get key payload).bind take = some a := by
  unfold item
  cases OrdMap.get key payload with
  | none => simp
  | some v => simp [expect_eq_ok]

theorem readMutation_eq_ok {payload : Payload} {fields : MutationFields}
    (h : readMutation payload = .ok fields) :
    OrdMap.get "mutation_type" payload = some (.string fields.mutationType) ∧
    OrdMap.get "content_canonical_bytes" payload = some (.bytes fields.contentBytes) := by
  obtain ⟨mutationType, h1, h⟩ := bind_eq_ok.1 h
  obtain ⟨contentBytes, h2, h⟩ := bind_eq_ok.1 h
  obtain ⟨touchedFields, -, h⟩ := bind_eq_ok.1 h
  obtain ⟨touchedFiles, -, h⟩ := bind_eq_ok.1 h
  obtain ⟨touchedMeta, -, h⟩ := bind_eq_ok.1 h
  cases h
  obtain ⟨v, hv, hs⟩ := Option.bind_eq_some_iff.1 (item_expect_eq_ok.1 h1)
  obtain ⟨u, hu, hb⟩ := Option.bind_eq_some_iff.1 (item_expect_eq_ok.1 h2)
  constructor
  · cases v <;> cases hs
    exact hv
  · cases u <;> cases hb
    exact hu

/-- The worker accepts every schema evolution. -/
theorem Submitted.accepted {payload : Payload} {report : MutationReport}
    (h : Submitted w payload report w') (ht : report.mutationType = schemaEvolutionType) :
    report.accepted = true := by
  obtain ⟨mutation, -, hm, ha⟩ := h.graded
  rw [ha, classify_schemaEvolution (hm.trans ht)]
  rfl

theorem handleSubmitMutation_cases {payload : Payload} {reply : Reply rt}
    (h : handleSubmitMutation w payload = .ok (reply, w')) :
    ∃ report, reply = .submitMutationResponse report ∧ Submitted w payload report w' := by
  unfold handleSubmitMutation at h
  obtain ⟨fields, h1, h⟩ := bind_eq_ok.1 h
  obtain ⟨touchedFields, h2, h⟩ := bind_eq_ok.1 h
  obtain ⟨touchedFiles, h3, h⟩ := bind_eq_ok.1 h
  obtain ⟨touchedMeta, h4, h⟩ := bind_eq_ok.1 h
  obtain ⟨migrationMode, h5, h⟩ := bind_eq_ok.1 h
  have hread := mapError_eq_ok.1 h1
  have henv : envelope? payload =
      some ⟨fields.mutationType, touchedFields, touchedFiles, touchedMeta⟩ := by
    simp [envelope?, hread, h2, h3, h4, Except.toOption]
  obtain ⟨htype, hcontent⟩ := readMutation_eq_ok hread
  dsimp only at h
  split at h
  · rename_i he
    obtain ⟨⟨outcome, v⟩, h6, h⟩ := bind_eq_ok.1 h
    cases h
    exact ⟨_, rfl, htype, hcontent, ⟨_, henv, rfl, rfl⟩, h5, fun _ => h6, fun hne => absurd he.2 hne⟩
  · rename_i hne
    cases h
    refine ⟨_, rfl, htype, hcontent, ⟨_, henv, rfl, rfl⟩, h5, fun he => absurd ?_ hne, fun _ =>
      ⟨rfl, rfl⟩⟩
    have hclass := @classify_schemaEvolution
      ⟨fields.mutationType, touchedFields, touchedFiles, touchedMeta⟩ he
    exact ⟨by rw [hclass]; rfl, he⟩

end Myco.Tropism
