import Myco.Canonical.MapGet
import Myco.Lib.Replay
import Myco.Schema.Dag

/-!
# The state that the event log determines

`DerivedState` of `substrate/src/derived_state.rs` and the replay of DAG nodes into it. Which
handler an event gets is decided by its `node_type` alone; `family` is that decision, and since
none of the texts it compares with begins with another, the order of its tests does not matter
(`family_pureRecord`, `rederiveEvent_eq`).

`applyEventWithDag` answers with a result and a state, as the code's `&mut self` does.
-/

namespace Myco.Substrate

open Myco.Lib Myco.Canonical Myco.Schema

/-! ### Families of events -/

def genesisPrefix : String := "genesis_event:"
def cycleAdvancedType : String := "cycle_advanced"
def absorptionPrefix : String := "absorption_event:cycle_"
def migrationStartedPrefix : String := "schema_migration_started:"
def migrationCommittedPrefix : String := "schema_migration_committed:"
def migrationRolledBackPrefix : String := "schema_migration_rolled_back:"
def successorChainUpdatedPrefix : String := "successor_chain_updated:"
def successionConfigDeclaredType : String := "cultivation_succession_config_declared"

inductive Family where
  | genesis
  | cycleAdvanced
  | absorption
  | migrationStarted
  | migrationEnded
  | successorChainUpdated
  | successionConfigDeclared
  | pureRecord
deriving DecidableEq

/-- The dispatch of `apply_event_with_dag`. -/
def family (nodeType : String) : Family :=
  if startsWith genesisPrefix nodeType then .genesis
  else if nodeType = cycleAdvancedType then .cycleAdvanced
  else if startsWith absorptionPrefix nodeType then .absorption
  else if startsWith migrationStartedPrefix nodeType then .migrationStarted
  else if startsWith migrationCommittedPrefix nodeType ∨
      startsWith migrationRolledBackPrefix nodeType then .migrationEnded
  else if startsWith successorChainUpdatedPrefix nodeType then .successorChainUpdated
  else if nodeType = successionConfigDeclaredType then .successionConfigDeclared
  else .pureRecord

/-! ### States -/

structure MigrationCandidate where
  opName : String
  schemaDiff : Bytes
  startedAtCycle : UInt64
  window : UInt64
  startedAtUnixNs : Int64
deriving DecidableEq

structure SuccessorEntry where
  pubkey : Hash32
  validFromUnixNs : Int64
  validUntilUnixNs : Option Int64
deriving DecidableEq

structure SuccessionConfig where
  cadenceDays : UInt64
  legacyWindowDays : UInt64
  orphanedTerminalWindowDays : UInt64
  terminalChoice : String
deriving DecidableEq

structure ObservatorySnapshot where
  atCycle : UInt64
  atUnixNs : Int64
  signal1DagNodeCount : UInt64
  signal1DagTotalContentBytes : UInt64
  signal2EvolutionEventCount : UInt64
  signal3DistinctPerturbedAxesCount : UInt64
  signal4bReachablePeerCount : UInt64
  signal6RatioRepr : String
  signal7ComputeNs : UInt64
  signal8NetworkBytes : UInt64
  signal9StorageBytes : UInt64
  signalTelosAlignmentRepr : String
  signalInternalMortalityEventDensity : UInt64
  signalHoardingIndicator : Bool
  signal4aCumulativeForkCount : UInt64
  signalChar07HonestDisagreementDensity : UInt64
deriving DecidableEq

structure DerivedState where
  substrateId : Option Hash32
  genesisTimeUnixNs : Option Int64
  generationDepth : UInt64
  cycleCounter : UInt64
  lastAbsorbedCycle : Option UInt64
  observatoryHistory : List ObservatorySnapshot
  migrationCandidate : Option MigrationCandidate
  successorChain : List SuccessorEntry
  successionConfig : Option SuccessionConfig
deriving DecidableEq

def DerivedState.empty : DerivedState := ⟨none, none, 0, 0, none, [], none, [], none⟩

/-! ### Errors -/

/-- The texts of a `reason`, one constructor a message. -/
inductive Reason where
  /-- the text of a `canonical_bytes` error -/
  | canonical (e : CanonicalBytesError)
  /-- `decode: {}` -/
  | decode (e : CanonicalBytesError)
  /-- `event content is not a Map: {}` -/
  | contentNotMap (other : Value)
  /-- `root not Map: {}` -/
  | rootNotMap (other : Value)
  /-- `not a Map: {}` -/
  | notMap (other : Value)
  /-- `missing or not {}`, the blank filled with the kind asked for -/
  | missingOrNot (kind : Tag)
  /-- `expected Timestamp; got {}` -/
  | expectedTimestamp (other : Value)
  /-- `missing` -/
  | missing
  /-- `expected 32 bytes; got {}` -/
  | expected32 (length : Nat)

inductive DerivedStateError where
  | eventDecode (nodeType : String) (reason : Reason)
  | eventField (nodeType field : String) (reason : Reason)
  | multipleGenesis

/-! ### Reading an event -/

abbrev Reading := Except (Fault DerivedStateError)

abbrev fieldError (nodeType field : String) (reason : Reason) : Fault DerivedStateError :=
  .err (.eventField nodeType field reason)

def decodeEventMap (node : DagNode) : Reading (List (String × Value)) := do
  match ← (decode node.content).mapError (.map fun e => .eventDecode node.nodeType (.canonical e))
    with
  | .map m => .ok m
  | other => .error (.err (.eventDecode node.nodeType (.contentNotMap other)))

/-- A `map_get_*` call with its error turned into an `EventField`. -/
def canonicalField {α : Type} (nodeType field : String) (x : Except CanonicalBytesError α) :
    Reading α :=
  x.mapError fun e => fieldError nodeType field (.canonical e)

def uintField (node : DagNode) (map : List (String × Value)) (field : String) : Reading UInt64 :=
  canonicalField node.nodeType field (mapGetUint map field)

def timestampField (node : DagNode) (map : List (String × Value)) (field : String) :
    Reading Int64 :=
  match OrdMap.get field map with
  | some (.timestamp t) => .ok t
  | some other => .error (fieldError node.nodeType field (.expectedTimestamp other))
  | none => .error (fieldError node.nodeType field .missing)

def bytes32Field (node : DagNode) (map : List (String × Value)) (field : String) :
    Reading Hash32 := do
  let slice ← canonicalField node.nodeType field (mapGetBytes map field)
  if h : slice.length = 32 then .ok ⟨slice, h⟩
  else .error (fieldError node.nodeType field (.expected32 slice.length))

def stringField (node : DagNode) (map : List (String × Value)) (field : String) :
    Reading String :=
  match OrdMap.get field map with
  | some (.string s) => .ok s
  | _ => .error (fieldError node.nodeType field (.missingOrNot .string))

def bytesField (node : DagNode) (map : List (String × Value)) (field : String) : Reading Bytes :=
  match OrdMap.get field map with
  | some (.bytes b) => .ok b
  | _ => .error (fieldError node.nodeType field (.missingOrNot .bytes))

/-- `Some(Value::Uint(n)) => *n, _ => 0`. -/
def uintOrZero (map : List (String × Value)) (field : String) : UInt64 :=
  match OrdMap.get field map with
  | some (.uint n) => n
  | _ => 0

def timestamp? (map : List (String × Value)) (field : String) : Option Int64 :=
  match OrdMap.get field map with
  | some (.timestamp t) => some t
  | _ => none

def readMigrationStarted (node : DagNode) : Reading MigrationCandidate := do
  let map ← decodeEventMap node
  let opName ← stringField node map "op"
  let schemaDiff ← bytesField node map "schema_diff_canonical_bytes"
  let startedAtCycle ← uintField node map "started_at_cycle"
  let window ← uintField node map "dual_validation_window_cycles"
  let startedAtUnixNs ← timestampField node map "started_at_unix_ns"
  .ok ⟨opName, schemaDiff, startedAtCycle, window, startedAtUnixNs⟩

def readSuccessorChainUpdated (node : DagNode) : Reading SuccessorEntry := do
  let map ← decodeEventMap node
  let pubkey ← bytes32Field node map "successor_pubkey"
  let validFrom ← timestampField node map "valid_from_unix_ns"
  .ok ⟨pubkey, validFrom, timestamp? map "valid_until_unix_ns"⟩

def readSuccessionConfigDeclared (node : DagNode) : Reading SuccessionConfig := do
  let map ← decodeEventMap node
  let cadenceDays ← uintField node map "cadence_days"
  let legacyWindowDays ← uintField node map "legacy_window_days"
  let orphanedTerminalWindowDays ← uintField node map "orphaned_terminal_window_days"
  let terminalChoice ← stringField node map "terminal_choice"
  .ok ⟨cadenceDays, legacyWindowDays, orphanedTerminalWindowDays, terminalChoice⟩

def readCycleAdvanced (node : DagNode) : Reading UInt64 := do
  let map ← decodeEventMap node
  uintField node map "new_cycle"

/-- The hashes that an array of values names: its byte strings of 32 bytes. -/
def hashesOf (items : List Value) : List NodeHash :=
  items.filterMap fun v =>
    match v with
    | .bytes b => if h : b.length = 32 then some ⟨b, h⟩ else none
    | _ => none

def maxAbsorbedCreatedAt (map : List (String × Value)) (dag : Option Dag) : Option UInt64 := do
  let dag ← dag
  match OrdMap.get "absorbed_hashes" map with
  | some (.array hashes) => (((hashesOf hashes).filterMap dag.get).map DagNode.createdAtCycle).max?
  | _ => none

/-- The cycle up to which the event says that material has been absorbed. -/
def readAbsorption (dag : Option Dag) (node : DagNode) : Reading UInt64 := do
  let map ← decodeEventMap node
  let cycle ← uintField node map "cycle"
  .ok ((maxAbsorbedCreatedAt map dag).getD cycle)

/-! ### Applying an event -/

/-- What a handler did: its result, and the state it left. -/
abbrev Applied := Except (Fault DerivedStateError) Unit × DerivedState

/-- Updates the state with what was read, or stops with it untouched. -/
def afterReading {α : Type} (x : Reading α) (s : DerivedState) (update : α → DerivedState) :
    Applied :=
  match x with
  | .error e => (.error e, s)
  | .ok a => (.ok (), update a)

/-- The id is written before the rest of the event is read. -/
def applyGenesis (node : DagNode) (s : DerivedState) : Applied :=
  if s.substrateId.isSome then (.error (.err .multipleGenesis), s)
  else
    match (do
      let map ← decodeEventMap node
      let id ← bytes32Field node map "substrate_id"
      .ok (map, id) : Reading _) with
    | .error e => (.error e, s)
    | .ok (map, id) =>
      let s := { s with substrateId := some id }
      afterReading (timestampField node map "genesis_time_unix_ns") s fun t =>
        { s with genesisTimeUnixNs := some t, generationDepth := uintOrZero map "generation_depth" }

def applyCycleAdvanced (node : DagNode) (s : DerivedState) : Applied :=
  afterReading (readCycleAdvanced node) s fun c => { s with cycleCounter := c }

def applyAbsorptionEvent (dag : Option Dag) (node : DagNode) (s : DerivedState) : Applied :=
  afterReading (readAbsorption dag node) s fun c =>
    { s with lastAbsorbedCycle := some (s.lastAbsorbedCycle.elim c (max · c)) }

def applyMigrationStarted (node : DagNode) (s : DerivedState) : Applied :=
  afterReading (readMigrationStarted node) s fun c => { s with migrationCandidate := some c }

def applySuccessorChainUpdated (node : DagNode) (s : DerivedState) : Applied :=
  afterReading (readSuccessorChainUpdated node) s fun e =>
    { s with successorChain := s.successorChain ++ [e] }

def applySuccessionConfigDeclared (node : DagNode) (s : DerivedState) : Applied :=
  afterReading (readSuccessionConfigDeclared node) s fun c => { s with successionConfig := some c }

def applyEventWithDag (dag : Option Dag) (node : DagNode) (s : DerivedState) : Applied :=
  match family node.nodeType with
  | .genesis => applyGenesis node s
  | .cycleAdvanced => applyCycleAdvanced node s
  | .absorption => applyAbsorptionEvent dag node s
  | .migrationStarted => applyMigrationStarted node s
  | .migrationEnded => (.ok (), { s with migrationCandidate := none })
  | .successorChainUpdated => applySuccessorChainUpdated node s
  | .successionConfigDeclared => applySuccessionConfigDeclared node s
  | .pureRecord => (.ok (), s)

/-! ### Rebuilding the state -/

/-- The state that `?` leaves, or the error it passes on. -/
def Applied.toReading (r : Applied) : Reading DerivedState := r.1.map fun _ => r.2

def fromDag (dag : Dag) : Reading DerivedState :=
  Applied.toReading
    (replay (applyEventWithDag (some dag)) dag.iterInInsertionOrder DerivedState.empty)

/-- One turn of the loop of `rederive_cultivation_from_dag`. -/
def rederiveEvent (node : DagNode) (s : DerivedState) : Applied :=
  if startsWith successorChainUpdatedPrefix node.nodeType then applySuccessorChainUpdated node s
  else if node.nodeType = successionConfigDeclaredType then applySuccessionConfigDeclared node s
  else (.ok (), s)

def rederiveCultivationFromDag (dag : Dag) (s : DerivedState) : Applied :=
  replay rederiveEvent dag.iterInInsertionOrder
    { s with successorChain := [], successionConfig := none }

/-! ### The families keep apart -/

theorem family_successorChainUpdated {nt : String} (h : startsWith successorChainUpdatedPrefix nt) :
    family nt = .successorChainUpdated := by
  unfold family
  rw [if_neg (not_startsWith h (by decide)), if_neg (ne_of_startsWith h (by decide)),
    if_neg (not_startsWith h (by decide)), if_neg (not_startsWith h (by decide)),
    if_neg (not_or.2 ⟨not_startsWith h (by decide), not_startsWith h (by decide)⟩), if_pos h]

/-- The texts that `family` compares a type with. -/
def dispatchTexts : List String :=
  [genesisPrefix, cycleAdvancedType, absorptionPrefix, migrationStartedPrefix,
    migrationCommittedPrefix, migrationRolledBackPrefix, successorChainUpdatedPrefix,
    successionConfigDeclaredType]

theorem family_pureRecord {p nt : String} (h : startsWith p nt)
    (hp : ∀ q ∈ dispatchTexts, Apart p q) : family nt = .pureRecord := by
  simp only [dispatchTexts, List.forall_mem_cons] at hp
  obtain ⟨h1, h2, h3, h4, h5, h6, h7, h8, -⟩ := hp
  unfold family
  rw [if_neg (not_startsWith h h1), if_neg (ne_of_startsWith h h2), if_neg (not_startsWith h h3),
    if_neg (not_startsWith h h4), if_neg (not_or.2 ⟨not_startsWith h h5, not_startsWith h h6⟩),
    if_neg (not_startsWith h h7), if_neg (ne_of_startsWith h h8)]

theorem rederiveEvent_eq {node : DagNode} {s : DerivedState} :
    rederiveEvent node s =
      match family node.nodeType with
      | .successorChainUpdated => applySuccessorChainUpdated node s
      | .successionConfigDeclared => applySuccessionConfigDeclared node s
      | _ => (.ok (), s) := by
  unfold rederiveEvent
  by_cases h1 : startsWith successorChainUpdatedPrefix node.nodeType
  · rw [if_pos h1, family_successorChainUpdated h1]
  · rw [if_neg h1]
    by_cases h2 : node.nodeType = successionConfigDeclaredType
    · have hf : family successionConfigDeclaredType = .successionConfigDeclared := by decide
      rw [if_pos h2, h2, hf]
    · rw [if_neg h2]
      unfold family
      split_ifs <;> rfl

end Myco.Substrate
