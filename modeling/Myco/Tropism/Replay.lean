import Myco.Tropism.Requests

/-!
# Starting again

What `run_loop` makes of a log that it has loaded (`bootState`), and the hello, which spawns a worker
and replays the log to it: `replay_python_events_from_dag` of
`substrate/src/persistence_runtime.rs`, for a log with a genesis. An event that is replayed is sent
to the worker as the request that it records (`replayed_node`), and the first that the worker
refuses ends the substrate.

A snapshot only makes the derived state faster to come by (`snapshot_boot`), and the events that a
boot emits are left to what follows it.
-/

namespace Myco.Tropism

open Myco.Lib Myco.Canonical Myco.Schema Myco.Substrate Myco.Federation Myco.Prune

variable {env : Env} {rt : Runtime}

/-! ### Booting -/

/-- What a boot reads besides the log. -/
structure BootFiles where
  substrateSigningSeed : Hash32
  acceptsLegacyPeers : Bool
  /-- what `manifest.cb` says for a log without a genesis, as a derived state -/
  manifest : DerivedState
  /-- how often the clock has been read -/
  readings : Nat

/-- `DerivedState::from_dag(..).unwrap_or_else(|_| DerivedState::empty())` -/
def derivedState (dag : Dag) : DerivedState :=
  match fromDag dag with
  | .ok d => d
  | .error _ => .empty

/-- The candidate in flight, as it was when it entered validation. -/
def resumeCandidate (c : MigrationCandidate) (now : Int64) : CandidateState :=
  ⟨c.schemaDiff, c.opName, c.startedAtCycle, c.window, now, .validating⟩

def countAxisRegistered (nodes : List DagNode) : UInt64 :=
  UInt64.ofNat (nodes.countP fun n => startsWith axisRegisteredPrefix n.nodeType)

def bootState (files : BootFiles) (ledger : Ledger env.blake3) : ServerState env :=
  let derived := derivedState ledger.dag
  let identity := if derived.substrateId.isSome then derived else files.manifest
  let cultivation := (rederiveCultivationFromDag ledger.dag derived).2
  let now := env.clock files.readings
  { ledger
    substrateId := identity.substrateId
    genesisTimeUnixNs := identity.genesisTimeUnixNs
    generationDepth := identity.generationDepth
    cycleCounter := identity.cycleCounter
    lastAbsorbedCycle := identity.lastAbsorbedCycle
    migrationCandidate := derived.migrationCandidate.map (resumeCandidate · now)
    pendingSelfDrivenNoopCycles := 0
    axisRegisterCount := countAxisRegistered ledger.nodes
    handshakeComplete := false
    federation := .new files.acceptsLegacyPeers
    revokedFederationPeers := deriveRevokedFederationPeersFromDag ledger.nodes
    substrateSigningSeed := files.substrateSigningSeed
    successorChain := cultivation.successorChain
    successionConfig := cultivation.successionConfig
    cultivationState := ledger.nodes.foldl cultivationEvent .normal
    pythonWorkerDeathLogged := false
    immuneEmissionState := []
    saturationStage := .normal
    consecutiveBudgetExhaustedCycles := 0
    lastBudgetExhaustedPerAxis := []
    backlogCount := 0
    lastHoardingIndicatorEmittedAtCycle := none
    lastCultivarInitiatedIngestionRequestAtCycle := none
    lastIngestionStarvationEmittedAtCycle := none
    lastMigrationWindowExceededEmittedAtCycle := none
    backupEncryptionStatus := deriveBackupEncryptionStatusFromDag ledger.nodes
    ownerObjective := none
    readings := files.readings + 1 }

/-! ### Replaying -/

inductive ReplayError where
  /-- `replay decode {what}: {e}` -/
  | decode (what : String) (e : Fault CanonicalBytesError)
  /-- `replay {what} content not Map: {other:?}` -/
  | contentNotMap (what : String) (other : Value)
  /-- the text of a `map_get` error, after what was read -/
  | field (what field : String) (e : CanonicalBytesError)
  /-- `replay {what} {field} parse: {e}` -/
  | parse (what field : String)
  /-- `replay {what} missing {field}` -/
  | missing (what field : String)
  | bridge (e : SubstrateError)

def replayMap (what : String) (n : DagNode) : Except ReplayError (List (String × Value)) :=
  match decode n.content with
  | .ok (.map m) => .ok m
  | .ok other => .error (.contentNotMap what other)
  | .error e => .error (.decode what e)

def replayString (what : String) (m : List (String × Value)) (field : String) :
    Except ReplayError String :=
  (mapGetString m field).mapError (.field what field)

def replayFloat (rt : Runtime) (what : String) (m : List (String × Value)) (field : String) :
    Except ReplayError rt.F := do
  let s ← replayString what m field
  match rt.f64 s with
  | some x => pure x
  | none => .error (.parse what field)

/-- The fields of a registration, and the name out of its type. -/
def readAxisRegistered (rt : Runtime) (axisName : String) (n : DagNode) :
    Except ReplayError (AxisRegisteredEvent rt) := do
  let what := axisRegisteredPrefix ++ axisName
  let m ← replayMap what n
  let axisClass ← replayString what m "axis_class"
  let fruitingThreshold ← replayFloat rt what m "fruiting_threshold_repr"
  let initialValue ← replayFloat rt what m "initial_value_repr"
  let decayRate ← replayFloat rt what m "decay_rate_per_cycle_repr"
  let isMortalitySignal ← match bool? m "is_mortality_signal" with
    | some b => pure b
    | none => .error (.missing what "is_mortality_signal")
  let updateRuleKind ← replayString what m "update_rule_kind"
  return ⟨axisName, axisClass, fruitingThreshold, initialValue, decayRate, isMortalitySignal,
    updateRuleKind⟩

/-- `register_axis_payload(..)` -/
def registerAxisPayload (event : AxisRegisteredEvent rt) : Payload :=
  OrdMap.ofList utf8 event.entries

/-- The request that an event records, if it is one to replay. -/
def replayRequest (rt : Runtime) (n : DagNode) : Except ReplayError (Option (MessageType × Payload)) :=
  match stripPrefix axisRegisteredPrefix n.nodeType with
  | some axisName => do
    let event ← readAxisRegistered rt axisName n
    return some (.registerAxis, registerAxisPayload event)
  | none =>
    match stripPrefix axisPerturbedPrefix n.nodeType with
    | some axisName => do
      let what := axisPerturbedPrefix ++ axisName
      let m ← replayMap what n
      let delta ← replayFloat rt what m "delta_repr"
      return some (.perturb, perturbPayload axisName delta)
    | none =>
      if startsWith perturbFromRawPrefix n.nodeType then do
        let what := "perturb_from_raw"
        let m ← replayMap what n
        let axisName ← replayString what m "axis_name"
        let delta ← replayFloat rt what m "delta_repr"
        return some (.perturb, perturbPayload axisName delta)
      else if n.nodeType = cycleAdvancedType then do
        let what := cycleAdvancedType
        let m ← replayMap what n
        match uint? m "new_cycle" with
        | some newCycle => return some (.advance, advancePayload newCycle)
        | none => .error (.missing what "new_cycle")
      else return none

def replayAck : MessageType → String
  | .registerAxis => "register_axis_ack"
  | .perturb => "perturb_ack"
  | .advance => "advance_response"
  | .submitMutation => "submit_mutation_response"
  | .commitMigration => "commit_migration_ack"
  | .abortMigration => "abort_migration_ack"

/-- A round trip to the worker that is being hydrated. -/
def replayCall (t : MessageType) (payload : Payload) (w : DispatcherState rt) :
    Except ReplayError Unit × DispatcherState rt :=
  match dispatch w t payload with
  | .ok (reply, w') =>
    if reply.messageType = replayAck t then (.ok (), w')
    else (.error (.bridge (.bridge s!"bridge protocol: expected {replayAck t}; got {
      reply.messageType}")), w')
  | .error (.bridgeProtocol text) => (.error (.bridge (workerError text)), w)
  | .error _ => (.error (.bridge workerGone), w)

/-- One turn of the loop of `replay_python_events_from_dag`. -/
def replayNode (n : DagNode) (w : DispatcherState rt) :
    Except ReplayError Unit × DispatcherState rt :=
  match replayRequest rt n with
  | .error e => (.error e, w)
  | .ok none => (.ok (), w)
  | .ok (some (t, payload)) => replayCall t payload w

/-- A fresh worker that the log has been replayed to. -/
def Hydrates (nodes : List DagNode) (w : DispatcherState rt) : Prop :=
  Replays replayNode nodes .fresh w

/-- What is no event to replay does nothing. -/
theorem replayNode_of_not_watched {n : DagNode} (h : ¬ Watched replayedTexts n.nodeType)
    (w : DispatcherState rt) : replayNode n w = (.ok (), w) := by
  have hnone : ∀ {p : String}, p ∈ replayedTexts → stripPrefix p n.nodeType = none := by
    intro p hp
    rw [← Option.not_isSome_iff_eq_none, stripPrefix_isSome]
    exact fun hs => h ⟨p, hp, hs⟩
  have hraw : ¬ startsWith perturbFromRawPrefix n.nodeType := fun hs =>
    h ⟨_, by simp [replayedTexts], hs⟩
  have hcycle : n.nodeType ≠ cycleAdvancedType := fun he =>
    h ⟨cycleAdvancedType, by simp [replayedTexts], by rw [he, startsWith]⟩
  have hrequest : replayRequest rt n = .ok none := by
    rw [replayRequest, hnone (by simp [replayedTexts]), hnone (by simp [replayedTexts])]
    simp only [if_neg hraw, if_neg hcycle]
    rfl
  rw [replayNode, hrequest]

end Myco.Tropism
