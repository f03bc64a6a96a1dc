import Myco.Substrate.Events
import Myco.Tropism.Gradient

/-!
# The gradient handlers of the worker

`handlers/gradient_ops.py` and the two migration handlers of `handlers/governance_ops.py`. A
handler that raises a `BridgeProtocolError` is answered with an error; any other exception ends
the process.

A candidate is advanced after the gradient and against what the gradient fruited. As long as it
does not diverge, a cycle turns it as it turns the gradient (`advanceCandidate_eq`).

Rust reads the answers back as they were written, so an answer is the record that Rust makes of
it. The fingerprints and the hash of a sporocarp, which nothing reads, are left out.
-/

namespace Myco.Tropism

open Myco.Lib Myco.Canonical Myco.Substrate

variable {rt : Runtime}

/-! ### Exceptions -/

inductive PyError where
  | keyError (key : String)
  | valueError (text : String)
  | canonicalBytes (text : String)
  | gradient (e : GradientError)
  | schemaEvolution (text : String)
  | bridgeProtocol (text : String)

def GradientError.text : GradientError → String
  | .axisAlreadyRegistered name => s!"axis already registered: {name}"
  | .axisNotFound name => s!"axis not registered: {name}"

/-- `str(e)` -/
def PyError.text : PyError → String
  | .keyError key => s!"'{key}'"
  | .valueError text => text
  | .canonicalBytes text => text
  | .gradient e => e.text
  | .schemaEvolution text => text
  | .bridgeProtocol text => text

/-- `type(value).__name__` -/
def typeName : Value → String
  | .null => "Null"
  | .bool _ => "Bool"
  | .int _ => "Int"
  | .uint _ => "Uint"
  | .string _ => "String"
  | .bytes _ => "Bytes"
  | .array _ => "Array"
  | .map _ => "Map"
  | .timestamp _ => "Timestamp"
  | .hash _ => "Hash"

/-- The `expect_*` helpers: one definition, applied to each kind of value. -/
def expect {α : Type} (complaint : String) (take : Value → Option α) (v : Value) :
    Except PyError α :=
  match take v with
  | some a => .ok a
  | none => .error (.canonicalBytes s!"{complaint}: {typeName v}")

def expectString := expect "expect_string: not a String" Value.string?

def expectUint := expect "expect_uint: not a Uint" Value.uint?

def expectBytes := expect "expect_bytes: not a Bytes" Value.bytes?

def expectArray := expect "expect_array: not an Array" Value.array?

def expectBool := expect "expect_bool: not a Bool" Value.bool?

abbrev Payload := List (String × Value)

/-- `keys[key]` -/
def item (payload : Payload) (key : String) : Except PyError Value :=
  match OrdMap.get key payload with
  | some v => .ok v
  | none => .error (.keyError key)

def stringItem (payload : Payload) (key : String) : Except PyError String :=
  item payload key >>= expectString

/-- `float(s)` -/
def toFloat (s : String) : Except PyError rt.F :=
  match rt.float s with
  | some x => .ok x
  | none => .error (.valueError s!"could not convert string to float: {rt.strRepr s}")

def floatItem (payload : Payload) (key : String) : Except PyError rt.F :=
  stringItem payload key >>= toFloat

/-! ### Messages -/

inductive MessageType where
  | registerAxis
  | perturb
  | advance
  | submitMutation
  | commitMigration
  | abortMigration
deriving DecidableEq

/-- `AxisRegisteredEvent` of the substrate, which has the fields of a `register_axis` request. -/
structure AxisRegisteredEvent (rt : Runtime) where
  name : String
  axisClass : String
  fruitingThreshold : rt.F
  initialValue : rt.F
  decayRatePerCycle : rt.F
  isMortalitySignal : Bool
  updateRuleKind : String

structure SporocarpReport (rt : Runtime) where
  sporocarpType : String
  axisName : String
  fruitingValue : rt.F
  atCycle : UInt64
  canonicalBytes : Bytes

structure AdvanceReport (rt : Runtime) where
  fruitedAxes : List String
  sporocarps : List (SporocarpReport rt)
  candidateActive : Bool
  candidateDiverged : Bool
  divergenceReason : String

structure MutationReport where
  classification : String
  accepted : Bool
  rejectionReason : String
  contentCanonicalBytes : Bytes
  mutationType : String
  schemaApplyAttempted : Bool
  schemaApplySucceeded : Bool
  schemaApplyFailureReason : String
  schemaApplyOp : String
  schemaApplySummary : String
  migrationMode : Bool
  candidateBuilt : Bool

inductive Reply (rt : Runtime) where
  | registerAxisAck
  | perturbAck
  | advanceResponse (report : AdvanceReport rt)
  | submitMutationResponse (report : MutationReport)
  | commitMigrationAck
  | abortMigrationAck

/-- The state of a worker that has been greeted. -/
structure DispatcherState (rt : Runtime) where
  gradient : GradientConfiguration rt
  candidateGradient : Option (GradientConfiguration rt)
  candidateOp : String
  candidateDiffBytes : Bytes

def DispatcherState.fresh : DispatcherState rt := ⟨.empty, none, "", []⟩

/-- What a handler answers, and the state it leaves. -/
abbrev Handled (rt : Runtime) := Except PyError (Reply rt × DispatcherState rt)

/-! ### Registering -/

/-- The fields of a `register_axis` request. -/
def readAxis (payload : Payload) : Except PyError (AxisRegisteredEvent rt) := do
  let name ← stringItem payload "name"
  let axisClass ← stringItem payload "axis_class"
  let fruitingThreshold ← floatItem payload "fruiting_threshold_repr"
  let initialValue ← floatItem payload "initial_value_repr"
  let decayRatePerCycle ← floatItem payload "decay_rate_per_cycle_repr"
  let isMortalitySignal ← item payload "is_mortality_signal" >>= expectBool
  let updateRuleKind ← stringItem payload "update_rule_kind"
  return ⟨name, axisClass, fruitingThreshold, initialValue, decayRatePerCycle, isMortalitySignal,
    updateRuleKind⟩

def registerAxisError (e : PyError) : PyError :=
  match e with
  | .keyError _ => .bridgeProtocol s!"register_axis payload missing key: {e.text}"
  | .valueError _ | .canonicalBytes _ =>
    .bridgeProtocol s!"register_axis payload parse error: {e.text}"
  | e => e

/-- The schema and the rule that the fields stand for. -/
def AxisRegisteredEvent.parameters (f : AxisRegisteredEvent rt) :
    Except PyError (AxisSchema rt × UpdateRule) :=
  match AxisClass.ofString? f.axisClass with
  | none => .error (.bridgeProtocol s!"unknown axis_class: {rt.strRepr f.axisClass}")
  | some axisClass =>
    match UpdateRule.ofString? f.updateRuleKind with
    | none => .error (.bridgeProtocol s!"unknown update_rule_kind: {rt.strRepr f.updateRuleKind}")
    | some rule => .ok (⟨f.name, axisClass, f.fruitingThreshold, f.initialValue,
        f.decayRatePerCycle, f.isMortalitySignal⟩, rule)

def gradientError (e : GradientError) : PyError := .bridgeProtocol e.text

def handleRegisterAxis (w : DispatcherState rt) (payload : Payload) : Handled rt := do
  let fields ← (readAxis payload).mapError registerAxisError
  let (schema, rule) ← fields.parameters
  let gradient ← (w.gradient.registerAxis schema rule).mapError gradientError
  return (.registerAxisAck, { w with gradient })

/-! ### Perturbing -/

def readPerturbation (payload : Payload) : Except PyError (String × rt.F) := do
  let axisName ← stringItem payload "axis_name"
  let delta ← floatItem payload "delta_repr"
  return (axisName, delta)

/-- What has the wrong type is not caught. -/
def perturbError (e : PyError) : PyError :=
  match e with
  | .keyError _ => .bridgeProtocol s!"perturb payload missing key: {e.text}"
  | .valueError _ => .bridgeProtocol s!"perturb delta parse error: {e.text}"
  | e => e

def handlePerturb (w : DispatcherState rt) (payload : Payload) : Handled rt := do
  let (axisName, delta) ← (readPerturbation payload).mapError perturbError
  let gradient ← (w.gradient.perturbAxis axisName delta).mapError gradientError
  return (.perturbAck, { w with gradient })

/-! ### Advancing -/

def sporocarpTypeTag : String := "sporocarp"

def mortalitySporocarpType : String := "mortality_signal_threshold_crossed"

/-- The sporocarp of an axis that is ready to fruit. -/
def emitSporocarp (atCycle : UInt64) (s : Slot rt) : SporocarpReport rt :=
  let sporocarpType :=
    if s.axis.schema.isMortalitySignal then mortalitySporocarpType else "appetite_fruiting"
  { sporocarpType
    axisName := s.name
    fruitingValue := s.axis.value
    atCycle
    canonicalBytes := cbEncode [("type", .string sporocarpTypeTag),
      ("sporocarp_type", .string sporocarpType), ("axis_name", .string s.name),
      ("fruiting_value_repr", .string (rt.repr s.axis.value)), ("at_cycle", .uint atCycle),
      ("causal_parent_hashes", .array []), ("payload_canonical_bytes", .bytes [])] }

/-- Why the candidate has diverged, of what an advance has made of it. -/
def divergence? (advanced : GradientConfiguration rt) (fruited activeFruited : List String)
    (cycle : UInt64) : Option String :=
  match advanced.slots.find? fun s => !rt.isFinite s.axis.value with
  | some s => some s!"candidate axis {rt.strRepr s.name} became non-finite ({
      rt.repr s.axis.value}) at cycle {cycle}"
  | none =>
    (advanced.slots.find? fun s => s.name ∈ fruited && s.axis.schema.isMortalitySignal &&
        s.name ∉ activeFruited).map fun s =>
      s!"candidate fruited mortality_signal axis {rt.strRepr s.name} at cycle {
        cycle} when active did not — migration would cross the substrate's mortality threshold"

/-- `_advance_candidate_and_check_divergence`: the reason, if it has diverged, and the candidate. -/
def advanceCandidate (candidate : GradientConfiguration rt) (cycle : UInt64)
    (activeFruited : List String) :
    Except PyError (Option String × GradientConfiguration rt) :=
  let (fruited, advanced) := candidate.advance
  match divergence? advanced fruited activeFruited cycle with
  | some reason => .ok (some reason, advanced)
  | none => do
    let candidate ← (advanced.resetAfterFruiting fruited cycle).mapError .gradient
    return (none, candidate)

def advanceError (e : PyError) : PyError :=
  match e with
  | .keyError _ => .bridgeProtocol s!"advance payload missing current_cycle: {e.text}"
  | e => e

def handleAdvance (w : DispatcherState rt) (payload : Payload) : Handled rt := do
  let cycle ← (item payload "current_cycle" >>= expectUint).mapError advanceError
  let (fruited, advanced) := w.gradient.advance
  let sporocarps := (advanced.slots.filter (·.axis.isAtFruitingThreshold)).map (emitSporocarp cycle)
  let gradient ← (advanced.resetAfterFruiting fruited cycle).mapError .gradient
  match w.candidateGradient with
  | none => return (.advanceResponse ⟨fruited, sporocarps, false, false, ""⟩, { w with gradient })
  | some candidate =>
    let (reason, candidate) ← advanceCandidate candidate cycle fruited
    return (.advanceResponse ⟨fruited, sporocarps, true, reason.isSome, reason.getD ""⟩,
      { w with gradient, candidateGradient := some candidate })

/-! ### Ending a migration -/

def handleCommitMigration (w : DispatcherState rt) : Handled rt :=
  .ok (.commitMigrationAck, ⟨w.candidateGradient.getD w.gradient, none, "", []⟩)

def handleAbortMigration (w : DispatcherState rt) : Handled rt :=
  .ok (.abortMigrationAck, ⟨w.gradient, none, "", []⟩)

/-! ### What the handlers do -/

variable {w w' : DispatcherState rt} {payload : Payload} {reply : Reply rt}

theorem handleRegisterAxis_eq_ok : handleRegisterAxis w payload = .ok (reply, w') ↔
    ∃ fields schema rule g, readAxis payload = .ok fields ∧ fields.parameters = .ok (schema, rule) ∧
      w.gradient.registerAxis schema rule = .ok g ∧ reply = .registerAxisAck ∧
      w' = { w with gradient := g } := by
  unfold handleRegisterAxis
  constructor
  · intro h
    obtain ⟨fields, h1, h⟩ := bind_eq_ok.1 h
    obtain ⟨⟨schema, rule⟩, h2, h⟩ := bind_eq_ok.1 h
    obtain ⟨g, h3, h⟩ := bind_eq_ok.1 h
    cases h
    exact ⟨fields, schema, rule, g, mapError_eq_ok.1 h1, h2, mapError_eq_ok.1 h3, rfl, rfl⟩
  · rintro ⟨fields, schema, rule, g, h1, h2, h3, rfl, rfl⟩
    rw [h1]
    show fields.parameters >>= _ = _
    rw [h2]
    show (w.gradient.registerAxis schema rule).mapError gradientError >>= _ = _
    rw [h3]
    rfl

theorem handlePerturb_eq_ok : handlePerturb w payload = .ok (reply, w') ↔
    ∃ name delta g, readPerturbation payload = .ok (name, delta) ∧
      w.gradient.perturbAxis name delta = .ok g ∧ reply = .perturbAck ∧
      w' = { w with gradient := g } := by
  unfold handlePerturb
  constructor
  · intro h
    obtain ⟨⟨name, delta⟩, h1, h⟩ := bind_eq_ok.1 h
    obtain ⟨g, h2, h⟩ := bind_eq_ok.1 h
    cases h
    exact ⟨name, delta, g, mapError_eq_ok.1 h1, mapError_eq_ok.1 h2, rfl, rfl⟩
  · rintro ⟨name, delta, g, h1, h2, rfl, rfl⟩
    rw [h1]
    show (w.gradient.perturbAxis name delta).mapError gradientError >>= _ = _
    rw [h2]
    rfl

/-- What a cycle does to a candidate that does not diverge, and to one that does. -/
theorem advanceCandidate_eq (candidate : GradientConfiguration rt) (cycle : UInt64)
    (activeFruited : List String) :
    advanceCandidate candidate cycle activeFruited =
      .ok (match divergence? candidate.advance.2 candidate.advance.1 activeFruited cycle with
        | some reason => (some reason, candidate.advance.2)
        | none => (none, candidate.turn cycle)) := by
  simp only [advanceCandidate]
  cases divergence? candidate.advance.2 candidate.advance.1 activeFruited cycle with
  | some reason => rfl
  | none =>
    dsimp only
    rw [GradientConfiguration.resetAfterFruiting_advance]
    rfl

/-- The payload of an `advance` request. -/
def advancePayload (currentCycle : UInt64) : Payload := [("current_cycle", .uint currentCycle)]

/-- What a cycle reports and leaves. -/
def advanced (w : DispatcherState rt) (cycle : UInt64) : AdvanceReport rt × DispatcherState rt :=
  let (fruited, g) := w.gradient.advance
  let sporocarps := (g.slots.filter (·.axis.isAtFruitingThreshold)).map (emitSporocarp cycle)
  let gradient := w.gradient.turn cycle
  match w.candidateGradient with
  | none => (⟨fruited, sporocarps, false, false, ""⟩, { w with gradient })
  | some candidate =>
    match divergence? candidate.advance.2 candidate.advance.1 fruited cycle with
    | some reason => (⟨fruited, sporocarps, true, true, reason⟩,
        { w with gradient, candidateGradient := some candidate.advance.2 })
    | none => (⟨fruited, sporocarps, true, false, ""⟩,
        { w with gradient, candidateGradient := some (candidate.turn cycle) })

/-- An advance does not fail. -/
theorem handleAdvance_eq (cycle : UInt64) : handleAdvance w (advancePayload cycle) =
    .ok (.advanceResponse (advanced w cycle).1, (advanced w cycle).2) := by
  have hcycle : (item (advancePayload cycle) "current_cycle" >>= expectUint).mapError advanceError =
      .ok cycle := rfl
  unfold handleAdvance
  rw [hcycle]
  show (w.gradient.advance.2.resetAfterFruiting w.gradient.advance.1 cycle).mapError
    PyError.gradient >>= _ = _
  rw [GradientConfiguration.resetAfterFruiting_advance]
  cases hc : w.candidateGradient with
  | none =>
    simp only [advanced, hc]
    rfl
  | some candidate =>
    show advanceCandidate candidate cycle w.gradient.advance.1 >>= _ = _
    rw [advanceCandidate_eq]
    simp only [advanced, hc]
    cases divergence? candidate.advance.2 candidate.advance.1 w.gradient.advance.1 cycle <;> rfl

theorem gradient_advanced {cycle : UInt64} :
    (advanced w cycle).2.gradient = w.gradient.turn cycle := by
  simp only [advanced]
  cases w.candidateGradient with
  | none => rfl
  | some candidate =>
    dsimp only
    split <;> rfl

end Myco.Tropism
