import Myco.Canonical.Size
import Myco.Schema.DagTamper
import Myco.Substrate.DerivedState

/-!
# Snapshots of the derived state

`to_canonical_bytes` and `from_canonical_bytes` of `substrate/src/derived_state.rs`, and the boot
that starts from a snapshot: `replay_events_after_tip` of `substrate/src/persistence_runtime.rs`
for the events after the snapshot, then `rederive_cultivation_from_dag` for the two fields that a
snapshot leaves out.

`snapshot_boot`: booting from a snapshot taken anywhere in the log gives the state that replaying
the whole log gives.
-/

namespace Myco.Substrate

open Myco.Lib Myco.Canonical Myco.Schema

/-! ### The code -/

def ObservatorySnapshot.toCanonicalValue (o : ObservatorySnapshot) : Value :=
  mapOf [("at_cycle", .uint o.atCycle),
    ("at_unix_ns", .timestamp o.atUnixNs),
    ("signal_1_dag_node_count", .uint o.signal1DagNodeCount),
    ("signal_1_dag_total_content_bytes", .uint o.signal1DagTotalContentBytes),
    ("signal_2_evolution_event_count", .uint o.signal2EvolutionEventCount),
    ("signal_3_distinct_perturbed_axes_count", .uint o.signal3DistinctPerturbedAxesCount),
    ("signal_4b_reachable_peer_count", .uint o.signal4bReachablePeerCount),
    ("signal_6_ratio_repr", .string o.signal6RatioRepr),
    ("signal_7_compute_ns", .uint o.signal7ComputeNs),
    ("signal_8_network_bytes", .uint o.signal8NetworkBytes),
    ("signal_9_storage_bytes", .uint o.signal9StorageBytes),
    ("signal_telos_alignment_repr", .string o.signalTelosAlignmentRepr),
    ("signal_internal_mortality_event_density", .uint o.signalInternalMortalityEventDensity),
    ("signal_hoarding_indicator", .bool o.signalHoardingIndicator),
    ("signal_4a_cumulative_fork_count", .uint o.signal4aCumulativeForkCount),
    ("signal_char07_honest_disagreement_density", .uint o.signalChar07HonestDisagreementDensity)]

def stringOrEmpty (map : List (String × Value)) (field : String) : String :=
  match OrdMap.get field map with
  | some (.string s) => s
  | _ => ""

def boolOrFalse (map : List (String × Value)) (field : String) : Bool :=
  match OrdMap.get field map with
  | some (.bool b) => b
  | _ => false

/-- `Some(Value::Timestamp(t)) => *t, _ =>` an `EventField` error. -/
def timestampOrError (nodeType : String) (map : List (String × Value)) (field : String) :
    Reading Int64 :=
  match OrdMap.get field map with
  | some (.timestamp t) => .ok t
  | _ => .error (fieldError nodeType field (.missingOrNot .timestamp))

def ObservatorySnapshot.fromCanonicalValue (v : Value) : Reading ObservatorySnapshot := do
  let nodeType := "observatory_snapshot"
  let m ← match v with
    | .map m => .ok m
    | other => .error (.err (.eventDecode nodeType (.notMap other)))
  let readUint (k : String) := canonicalField nodeType k (mapGetUint m k)
  let atCycle ← readUint "at_cycle"
  let atUnixNs ← timestampOrError nodeType m "at_unix_ns"
  let signal1DagNodeCount ← readUint "signal_1_dag_node_count"
  let signal1DagTotalContentBytes ← readUint "signal_1_dag_total_content_bytes"
  let signal2EvolutionEventCount ← readUint "signal_2_evolution_event_count"
  let signal3DistinctPerturbedAxesCount ← readUint "signal_3_distinct_perturbed_axes_count"
  let signal4bReachablePeerCount ← readUint "signal_4b_reachable_peer_count"
  .ok {
    atCycle, atUnixNs, signal1DagNodeCount, signal1DagTotalContentBytes,
    signal2EvolutionEventCount, signal3DistinctPerturbedAxesCount, signal4bReachablePeerCount
    signal6RatioRepr := stringOrEmpty m "signal_6_ratio_repr"
    signal7ComputeNs := uintOrZero m "signal_7_compute_ns"
    signal8NetworkBytes := uintOrZero m "signal_8_network_bytes"
    signal9StorageBytes := uintOrZero m "signal_9_storage_bytes"
    signalTelosAlignmentRepr := stringOrEmpty m "signal_telos_alignment_repr"
    signalInternalMortalityEventDensity := uintOrZero m "signal_internal_mortality_event_density"
    signalHoardingIndicator := boolOrFalse m "signal_hoarding_indicator"
    signal4aCumulativeForkCount := uintOrZero m "signal_4a_cumulative_fork_count"
    signalChar07HonestDisagreementDensity :=
      uintOrZero m "signal_char07_honest_disagreement_density" }

def MigrationCandidate.toCanonicalValue (c : MigrationCandidate) : Value :=
  mapOf [("op_name", .string c.opName),
    ("schema_diff_canonical_bytes", .bytes c.schemaDiff),
    ("started_at_cycle", .uint c.startedAtCycle),
    ("dual_validation_window_cycles", .uint c.window),
    ("started_at_unix_ns", .timestamp c.startedAtUnixNs)]

/-- An optional entry of a map: nothing is inserted for `none`. -/
def entryIf {α : Type} (key : String) (value : α → Value) (x : Option α) : List (String × Value) :=
  (x.map fun a => (key, value a)).toList

def DerivedState.toValue (s : DerivedState) (snapshotAtDagTip : Option NodeHash) : Value :=
  mapOf ([("format_version", .uint 2)]
    ++ entryIf "snapshot_at_dag_tip" (fun h : NodeHash => .bytes h.bytes) snapshotAtDagTip
    ++ entryIf "substrate_id" (fun h : Hash32 => .bytes h.bytes) s.substrateId
    ++ entryIf "genesis_time_unix_ns" .timestamp s.genesisTimeUnixNs
    ++ entryIf "generation_depth" .uint (if s.generationDepth ≠ 0 then some s.generationDepth else none)
    ++ [("cycle_counter", .uint s.cycleCounter)]
    ++ entryIf "last_absorbed_cycle" .uint s.lastAbsorbedCycle
    ++ entryIf "observatory_history"
      (fun hist => .array (hist.map ObservatorySnapshot.toCanonicalValue))
      (if s.observatoryHistory ≠ [] then some s.observatoryHistory else none)
    ++ entryIf "migration_candidate" MigrationCandidate.toCanonicalValue s.migrationCandidate)

/-- `none` is the panic of the `expect`. -/
def DerivedState.toCanonicalBytes (s : DerivedState) (snapshotAtDagTip : Option NodeHash) :
    Option Bytes :=
  (encode (s.toValue snapshotAtDagTip)).toOption

/-- `Some(Value::Bytes(b)) if b.len() == 32`. -/
def bytes32? (map : List (String × Value)) (field : String) : Option Hash32 :=
  match OrdMap.get field map with
  | some (.bytes b) => if h : b.length = 32 then some ⟨b, h⟩ else none
  | _ => none

def uint? (map : List (String × Value)) (field : String) : Option UInt64 :=
  match OrdMap.get field map with
  | some (.uint n) => some n
  | _ => none

def readHistory (map : List (String × Value)) : Reading (List ObservatorySnapshot) :=
  match OrdMap.get "observatory_history" map with
  | some (.array arr) => arr.mapM ObservatorySnapshot.fromCanonicalValue
  | _ => .ok []

def readCandidate (map : List (String × Value)) : Reading (Option MigrationCandidate) :=
  match OrdMap.get "migration_candidate" map with
  | some (.map m) => do
    let opName ← canonicalField "snapshot.cb" "migration_candidate.op_name"
      (mapGetString m "op_name")
    let schemaDiff ← match OrdMap.get "schema_diff_canonical_bytes" m with
      | some (.bytes b) => .ok b
      | _ => .error (fieldError "snapshot.cb" "migration_candidate.schema_diff_canonical_bytes"
        (.missingOrNot .bytes))
    let startedAtCycle ← canonicalField "snapshot.cb" "migration_candidate.started_at_cycle"
      (mapGetUint m "started_at_cycle")
    let window ← canonicalField "snapshot.cb" "migration_candidate.dual_validation_window_cycles"
      (mapGetUint m "dual_validation_window_cycles")
    let startedAtUnixNs := (timestamp? m "started_at_unix_ns").getD 0
    .ok (some ⟨opName, schemaDiff, startedAtCycle, window, startedAtUnixNs⟩)
  | _ => .ok none

def DerivedState.fromCanonicalBytes (bytes : Bytes) :
    Reading (Option (DerivedState × Option NodeHash)) := do
  let decoded ← (decode bytes).mapError (.map fun e => .eventDecode "snapshot.cb" (.decode e))
  let map ← match decoded with
    | .map m => .ok m
    | other => .error (.err (.eventDecode "snapshot.cb" (.rootNotMap other)))
  let version ← canonicalField "snapshot.cb" "format_version" (mapGetUint map "format_version")
  if version ≠ 1 ∧ version ≠ 2 then .ok none
  else do
    let cycleCounter ← canonicalField "snapshot.cb" "cycle_counter" (mapGetUint map "cycle_counter")
    let observatoryHistory ← readHistory map
    let migrationCandidate ← readCandidate map
    .ok (some (
      { substrateId := bytes32? map "substrate_id"
        genesisTimeUnixNs := timestamp? map "genesis_time_unix_ns"
        generationDepth := uintOrZero map "generation_depth"
        cycleCounter
        lastAbsorbedCycle := uint? map "last_absorbed_cycle"
        observatoryHistory
        migrationCandidate
        successorChain := []
        successionConfig := none },
      bytes32? map "snapshot_at_dag_tip"))

/-- The nodes after the one with hash `tip`; all of them without a tip. -/
def nodesAfter (nodes : List DagNode) : Option NodeHash → List DagNode
  | none => nodes
  | some tip => (nodes.dropWhile fun node => node.hash ≠ tip).tail

def replayEventsAfterTip (dag : Dag) (afterTip : Option NodeHash) (s : DerivedState) : Applied :=
  replay (applyEventWithDag (some dag)) (nodesAfter dag.iterInInsertionOrder afterTip) s

/-- The boot from the bytes of a snapshot; `none` when its format is another one. -/
def bootFromSnapshot (dag : Dag) (bytes : Bytes) : Reading (Option DerivedState) := do
  match ← DerivedState.fromCanonicalBytes bytes with
  | none => .ok none
  | some (s, snapTip) => do
    let s ← (replayEventsAfterTip dag snapTip s).toReading
    let s ← (rederiveCultivationFromDag dag s).toReading
    .ok (some s)

/-! ### The bytes of a snapshot -/

/-- The state without what a snapshot leaves out. -/
def DerivedState.core (s : DerivedState) : DerivedState :=
  { s with successorChain := [], successionConfig := none }

theorem ObservatorySnapshot.fromCanonicalValue_to {o : ObservatorySnapshot} :
    fromCanonicalValue o.toCanonicalValue = .ok o := by
  simp [fromCanonicalValue, toCanonicalValue, mapOf, mapGetUint, mapGet, get_mapOf,
    OrdMap.get_cons, Value.uint?, canonicalField, Except.mapError, timestampOrError, stringOrEmpty,
    uintOrZero, boolOrFalse]

theorem ObservatorySnapshot.toCanonicalValue_wf {o : ObservatorySnapshot} :
    o.toCanonicalValue.WF := by
  refine mapOf_wf ?_
  simp [Value.WF]

theorem MigrationCandidate.toCanonicalValue_wf {c : MigrationCandidate} :
    c.toCanonicalValue.WF := by
  refine mapOf_wf ?_
  simp [Value.WF]

theorem mem_entryIf {α : Type} {key : String} {value : α → Value} {x : Option α}
    {e : String × Value} : e ∈ entryIf key value x ↔ ∃ a, x = some a ∧ e = (key, value a) := by
  cases x <;> simp [entryIf]

theorem get_entryIf {α : Type} {k key : String} {value : α → Value} {x : Option α} :
    OrdMap.get k (entryIf key value x).reverse = if k = key then x.map value else none := by
  cases x <;> simp [entryIf, OrdMap.get_cons]

theorem DerivedState.toValue_wf {s : DerivedState} {tip : Option NodeHash} :
    (s.toValue tip).WF := by
  refine mapOf_wf fun e he => ?_
  simp only [List.mem_append, mem_entryIf, List.mem_singleton] at he
  rcases he with (((((((rfl | ⟨a, -, rfl⟩) | ⟨a, -, rfl⟩) | ⟨a, -, rfl⟩) | ⟨a, -, rfl⟩) | rfl) |
    ⟨a, -, rfl⟩) | ⟨a, -, rfl⟩) | ⟨c, -, rfl⟩
  case inl.inr =>
    rw [Value.WF, wfItems_iff]
    intro v hv
    obtain ⟨o, -, rfl⟩ := List.mem_map.1 hv
    exact ObservatorySnapshot.toCanonicalValue_wf
  case inr => exact MigrationCandidate.toCanonicalValue_wf
  all_goals trivial

theorem mapM_fromCanonicalValue {hist : List ObservatorySnapshot} :
    (hist.map ObservatorySnapshot.toCanonicalValue).mapM ObservatorySnapshot.fromCanonicalValue =
      .ok hist := by
  induction hist with
  | nil => rfl
  | cons o hist ih =>
    rw [List.map_cons, List.mapM_cons, ObservatorySnapshot.fromCanonicalValue_to, ih]
    rfl

section

variable {m : List (String × Value)} {field : String}

theorem bytes32?_of_get {x : Option Hash32}
    (h : OrdMap.get field m = x.map fun h => .bytes h.bytes) : bytes32? m field = x := by
  rw [bytes32?, h]
  cases x with
  | none => rfl
  | some a => exact dif_pos a.length_eq

theorem uint?_of_get {x : Option UInt64} (h : OrdMap.get field m = x.map .uint) :
    uint? m field = x := by
  rw [uint?, h]
  cases x <;> rfl

theorem timestamp?_of_get {x : Option Int64} (h : OrdMap.get field m = x.map .timestamp) :
    timestamp? m field = x := by
  rw [timestamp?, h]
  cases x <;> rfl

theorem uintOrZero_of_get {n : UInt64}
    (h : OrdMap.get field m = (if n ≠ 0 then some n else none).map .uint) :
    uintOrZero m field = n := by
  rw [uintOrZero, h]
  by_cases hn : n = 0
  · simp [hn]
  · simp [hn]

theorem readHistory_of_get {hist : List ObservatorySnapshot}
    (h : OrdMap.get "observatory_history" m = (if hist ≠ [] then some hist else none).map
      fun hist => .array (hist.map ObservatorySnapshot.toCanonicalValue)) :
    readHistory m = .ok hist := by
  rw [readHistory, h]
  by_cases hn : hist = []
  · simp [hn]
  · simp only [if_pos hn, Option.map_some]
    exact mapM_fromCanonicalValue

theorem readCandidate_of_get {x : Option MigrationCandidate}
    (h : OrdMap.get "migration_candidate" m = x.map MigrationCandidate.toCanonicalValue) :
    readCandidate m = .ok x := by
  rw [readCandidate, h]
  cases x with
  | none => rfl
  | some c =>
    simp [MigrationCandidate.toCanonicalValue, mapOf, mapGetString, mapGetUint, mapGet, get_mapOf,
      OrdMap.get_cons, Value.string?, Value.uint?, canonicalField, Except.mapError, timestamp?]

end

/-- A snapshot is read back without the fields that it leaves out. -/
theorem DerivedState.fromCanonicalBytes_to {s : DerivedState} {tip : Option NodeHash} {bs : Bytes}
    (h : s.toCanonicalBytes tip = some bs) (hmem : bs.length ≤ isizeMax) :
    fromCanonicalBytes bs = .ok (some (s.core, tip)) := by
  have hdec := decode_of_encode DerivedState.toValue_wf (toOption_eq_some.1 h) hmem
  rw [toValue, mapOf] at hdec
  generalize hm : OrdMap.ofList utf8 _ = m at hdec
  have hget : ∀ k, OrdMap.get k m = _ := fun k => hm ▸ get_mapOf
  simp only [List.reverse_append, OrdMap.get_append, get_entryIf, List.reverse_singleton,
    OrdMap.get_cons, OrdMap.get_nil] at hget
  have hversion : mapGetUint m "format_version" = .ok 2 :=
    mapGet_eq_ok.2 ⟨_, hget _, rfl⟩
  have hcycle : mapGetUint m "cycle_counter" = .ok s.cycleCounter :=
    mapGet_eq_ok.2 ⟨_, hget _, rfl⟩
  have htip : bytes32? m "snapshot_at_dag_tip" = tip := bytes32?_of_get (by simp [hget])
  have hid : bytes32? m "substrate_id" = s.substrateId := bytes32?_of_get (by simp [hget])
  have htime : timestamp? m "genesis_time_unix_ns" = s.genesisTimeUnixNs :=
    timestamp?_of_get (by simp [hget])
  have hdepth : uintOrZero m "generation_depth" = s.generationDepth :=
    uintOrZero_of_get (by simp [hget])
  have habsorbed : uint? m "last_absorbed_cycle" = s.lastAbsorbedCycle :=
    uint?_of_get (by simp [hget])
  have hhist : readHistory m = .ok s.observatoryHistory := readHistory_of_get (by simp [hget])
  have hcand : readCandidate m = .ok s.migrationCandidate := readCandidate_of_get (by simp [hget])
  simp only [fromCanonicalBytes, hdec, Except.mapError, ok_bind, hversion, hcycle, canonicalField,
    hhist, hcand, htip, hid, htime, hdepth, habsorbed]
  rfl

theorem DerivedState.toCanonicalBytes_total (s : DerivedState) (tip : Option NodeHash) :
    ∃ bs, s.toCanonicalBytes tip = some bs := by
  obtain ⟨bs, h⟩ := encode_total (s.toValue tip)
  exact ⟨bs, toOption_eq_some.2 h⟩

/-! ### Booting from a snapshot -/

theorem afterReading_eq_ok {α : Type} {x : Reading α} {s s' : DerivedState}
    {update : α → DerivedState} :
    afterReading x s update = (.ok (), s') ↔ ∃ a, x = .ok a ∧ update a = s' := by
  cases x <;> simp [afterReading]

theorem toReading_eq_ok {r : Applied} {s : DerivedState} :
    r.toReading = .ok s ↔ r = (.ok (), s) := by
  obtain ⟨x, t⟩ := r
  cases x <;> simp [Applied.toReading, Except.map]

theorem fromDag_eq_ok {dag : Dag} {s : DerivedState} :
    fromDag dag = .ok s ↔
      Replays (applyEventWithDag (some dag)) dag.iterInInsertionOrder .empty s :=
  toReading_eq_ok

theorem applyGenesis_eq_ok {node : DagNode} {s s' : DerivedState} :
    applyGenesis node s = (.ok (), s') ↔
      s.substrateId = none ∧ ∃ map id t, decodeEventMap node = .ok map ∧
        bytes32Field node map "substrate_id" = .ok id ∧
        timestampField node map "genesis_time_unix_ns" = .ok t ∧
        { s with substrateId := some id, genesisTimeUnixNs := some t
                 generationDepth := uintOrZero map "generation_depth" } = s' := by
  unfold applyGenesis
  cases hid : s.substrateId with
  | some id => simp
  | none =>
    cases hmap : decodeEventMap node with
    | error e => simp
    | ok map =>
      cases hb : bytes32Field node map "substrate_id" with
      | error e => simp [hb]
      | ok id => simp [hb, afterReading_eq_ok]

/-- The fields that a snapshot keeps change in the same way whatever the two others are. -/
theorem applyEventWithDag_core {dag : Option Dag} {node : DagNode} {s t s' : DerivedState}
    (hR : s.core = t.core) (h : applyEventWithDag dag node s = (.ok (), s')) :
    ∃ t', applyEventWithDag dag node t = (.ok (), t') ∧ s'.core = t'.core := by
  obtain ⟨id, time, depth, cycle, absorbed, hist, cand, chain, config⟩ := s
  obtain ⟨id', time', depth', cycle', absorbed', hist', cand', chain', config'⟩ := t
  simp only [DerivedState.core, DerivedState.mk.injEq, and_true] at hR
  obtain ⟨rfl, rfl, rfl, rfl, rfl, rfl, rfl⟩ := hR
  unfold applyEventWithDag at h ⊢
  split at h
  · obtain ⟨hid, map, i, ts, h1, h2, h3, rfl⟩ := applyGenesis_eq_ok.1 h
    exact ⟨_, applyGenesis_eq_ok.2 ⟨hid, map, i, ts, h1, h2, h3, rfl⟩, rfl⟩
  · obtain ⟨c, h1, rfl⟩ := afterReading_eq_ok.1 h
    exact ⟨_, afterReading_eq_ok.2 ⟨c, h1, rfl⟩, rfl⟩
  · obtain ⟨c, h1, rfl⟩ := afterReading_eq_ok.1 h
    exact ⟨_, afterReading_eq_ok.2 ⟨c, h1, rfl⟩, rfl⟩
  · obtain ⟨c, h1, rfl⟩ := afterReading_eq_ok.1 h
    exact ⟨_, afterReading_eq_ok.2 ⟨c, h1, rfl⟩, rfl⟩
  · cases h
    exact ⟨_, rfl, rfl⟩
  · obtain ⟨e, h1, rfl⟩ := afterReading_eq_ok.1 h
    exact ⟨_, afterReading_eq_ok.2 ⟨e, h1, rfl⟩, rfl⟩
  · obtain ⟨c, h1, rfl⟩ := afterReading_eq_ok.1 h
    exact ⟨_, afterReading_eq_ok.2 ⟨c, h1, rfl⟩, rfl⟩
  · cases h
    exact ⟨_, rfl, rfl⟩

/-- Rederiving does to the two other fields what replaying does, and nothing to the rest. -/
theorem rederiveEvent_sim {dag : Option Dag} {node : DagNode} {s t s' : DerivedState}
    (hchain : s.successorChain = t.successorChain) (hconfig : s.successionConfig = t.successionConfig)
    (h : applyEventWithDag dag node s = (.ok (), s')) :
    ∃ t', rederiveEvent node t = (.ok (), t') ∧ s'.successorChain = t'.successorChain ∧
      s'.successionConfig = t'.successionConfig ∧ t'.core = t.core := by
  rw [rederiveEvent_eq]
  unfold applyEventWithDag at h
  split at h <;> rename_i hf <;> rw [hf]
  · obtain ⟨hid, map, i, ts, h1, h2, h3, rfl⟩ := applyGenesis_eq_ok.1 h
    exact ⟨t, rfl, hchain, hconfig, rfl⟩
  · obtain ⟨c, h1, rfl⟩ := afterReading_eq_ok.1 h
    exact ⟨t, rfl, hchain, hconfig, rfl⟩
  · obtain ⟨c, h1, rfl⟩ := afterReading_eq_ok.1 h
    exact ⟨t, rfl, hchain, hconfig, rfl⟩
  · obtain ⟨c, h1, rfl⟩ := afterReading_eq_ok.1 h
    exact ⟨t, rfl, hchain, hconfig, rfl⟩
  · cases h
    exact ⟨t, rfl, hchain, hconfig, rfl⟩
  · obtain ⟨e, h1, rfl⟩ := afterReading_eq_ok.1 h
    exact ⟨_, afterReading_eq_ok.2 ⟨e, h1, rfl⟩, by simp [hchain], hconfig, rfl⟩
  · obtain ⟨c, h1, rfl⟩ := afterReading_eq_ok.1 h
    exact ⟨_, afterReading_eq_ok.2 ⟨c, h1, rfl⟩, hchain, rfl, rfl⟩
  · cases h
    exact ⟨t, rfl, hchain, hconfig, rfl⟩

/-- The hashes that an absorption event lists. -/
def absorbedHashes (node : DagNode) : List NodeHash :=
  match decodeEventMap node with
  | .ok map =>
    match OrdMap.get "absorbed_hashes" map with
    | some (.array items) => hashesOf items
    | _ => []
  | .error _ => []

/-- Absorption events list parents of theirs only. -/
def AbsorbsOwnParents (dag : Dag) : Prop :=
  ∀ node ∈ dag.iterInInsertionOrder, family node.nodeType = .absorption →
    absorbedHashes node ⊆ node.parentHashes

theorem readAbsorption_congr {dag dag' : Dag} {node : DagNode}
    (h : ∀ k ∈ absorbedHashes node, dag.get k = dag'.get k) :
    readAbsorption (some dag) node = readAbsorption (some dag') node := by
  unfold readAbsorption absorbedHashes at *
  cases hmap : decodeEventMap node with
  | error e => rfl
  | ok map =>
    have hmax : maxAbsorbedCreatedAt map (some dag) = maxAbsorbedCreatedAt map (some dag') := by
      simp only [hmap] at h
      simp only [maxAbsorbedCreatedAt, Option.bind_eq_bind, Option.bind_some]
      split
      · rename_i items hitems
        rw [hitems] at h
        rw [List.filterMap_congr h]
      · rfl
    rw [ok_bind, ok_bind, hmax]

variable {blake3 : Bytes → NodeHash}

/-- A prefix of a history replays alike with and without the rest of it at hand. -/
theorem applyEventWithDag_prefix {xs ys : List DagNode} (hr : Recorded blake3 (xs ++ ys))
    (habs : AbsorbsOwnParents (.ofNodes (xs ++ ys))) {node : DagNode} (hn : node ∈ xs)
    (s : DerivedState) :
    applyEventWithDag (some (.ofNodes (xs ++ ys))) node s =
      applyEventWithDag (some (.ofNodes xs)) node s := by
  unfold applyEventWithDag
  split
  case h_3 hf =>
    unfold applyAbsorptionEvent
    rw [readAbsorption_congr]
    intro k hk
    have hmem : node ∈ (Dag.ofNodes (xs ++ ys)).iterInInsertionOrder := by
      rw [Dag.iter_ofNodes hr.nodup]
      exact List.mem_append_left _ hn
    have hpar := hr.of_append.parent_mem hn (habs node hmem hf hk)
    rw [Dag.get_ofNodes hr.nodup, Dag.get_ofNodes hr.of_append.nodup, entryOf_append]
    obtain ⟨m, hm⟩ := Option.isSome_iff_exists.1 (entryOf_isSome.2 hpar)
    rw [hm, Option.some_or]
  all_goals rfl

theorem nodesAfter_eq {xs ys : List DagNode} {n : DagNode}
    (hd : ((xs ++ n :: ys).map DagNode.hash).Nodup) :
    nodesAfter (xs ++ n :: ys) (some n.hash) = ys := by
  have hne : ∀ m ∈ xs, m.hash ≠ n.hash := by
    intro m hm heq
    rw [List.map_append, List.map_cons] at hd
    exact List.disjoint_of_nodup_append hd (List.mem_map_of_mem hm) (heq ▸ List.mem_cons_self)
  rw [nodesAfter, List.dropWhile_append_of_pos (by simpa using hne)]
  simp

/-- Wherever in the log the snapshot was taken, booting from it gives the state that replaying the
whole log gives. -/
theorem snapshot_boot (calls : List Insertion) {xs ys : List DagNode} {n : DagNode}
    {full : DerivedState}
    (hsplit : (insertAll blake3 calls).iterInInsertionOrder = xs ++ n :: ys)
    (hfull : fromDag (insertAll blake3 calls) = .ok full)
    (habs : AbsorbsOwnParents (insertAll blake3 calls)) :
    ∃ s bs, fromDag (.ofNodes (xs ++ [n])) = .ok s ∧ s.toCanonicalBytes (some n.hash) = some bs ∧
      (bs.length ≤ isizeMax →
        bootFromSnapshot (insertAll blake3 calls) bs = .ok (some full)) := by
  obtain ⟨ns, hr, hd⟩ := insertAll_recorded blake3 calls
  rw [hd, Dag.iter_ofNodes hr.nodup] at hsplit
  subst hsplit
  rw [hd] at hfull habs ⊢
  rw [fromDag_eq_ok, Dag.iter_ofNodes hr.nodup] at hfull
  have hnodes : nodesAfter (xs ++ n :: ys) (some n.hash) = ys := nodesAfter_eq hr.nodup
  -- the full replay passes through the state that the snapshot is taken of
  have hpass := hfull
  rw [List.append_cons] at hpass hr habs
  obtain ⟨s, hbefore, hafter⟩ := replays_append.1 hpass
  have hs : fromDag (.ofNodes (xs ++ [n])) = .ok s := by
    rw [fromDag_eq_ok, Dag.iter_ofNodes hr.of_append.nodup]
    exact hbefore.congr fun m hm s => applyEventWithDag_prefix hr habs hm s
  obtain ⟨bs, hbs⟩ := s.toCanonicalBytes_total (some n.hash)
  refine ⟨s, bs, hs, hbs, fun hmem => ?_⟩
  rw [← List.append_cons] at hr
  -- from there on, boot and full replay keep the same core
  obtain ⟨t, htail, hcore⟩ : ∃ t, Replays (applyEventWithDag (some (.ofNodes (xs ++ n :: ys)))) ys
      s.core t ∧ full.core = t.core := by
    rw [List.append_cons]
    refine Replays.sim (R := fun s t : DerivedState => s.core = t.core) ?_ ?_ hafter
    · exact fun _ _ _ _ _ => applyEventWithDag_core
    · rfl
  -- and rederiving from the whole log adds the two fields that it derives from it
  obtain ⟨u, hred, hchain, hconfig, hkeep⟩ : ∃ u, Replays rederiveEvent (xs ++ n :: ys) t.core u ∧
      full.successorChain = u.successorChain ∧ full.successionConfig = u.successionConfig ∧
      u.core = t.core := by
    refine Replays.sim (R := fun s u : DerivedState => s.successorChain = u.successorChain ∧
      s.successionConfig = u.successionConfig ∧ u.core = t.core) ?_ ?_ hfull
    · intro m _ s u s' ⟨h1, h2, h3⟩ h
      obtain ⟨u', h4, h5, h6, h7⟩ := rederiveEvent_sim h1 h2 h
      exact ⟨u', h4, h5, h6, h7.trans h3⟩
    · exact ⟨rfl, rfl, rfl⟩
  have hu : u = full := by
    have h := hkeep.trans hcore.symm
    cases u
    cases full
    simp only [DerivedState.core, DerivedState.mk.injEq, and_true] at h hchain hconfig ⊢
    exact ⟨h.1, h.2.1, h.2.2.1, h.2.2.2.1, h.2.2.2.2.1, h.2.2.2.2.2.1, h.2.2.2.2.2.2, hchain.symm,
      hconfig.symm⟩
  have hreplay : replayEventsAfterTip (.ofNodes (xs ++ n :: ys)) (some n.hash) s.core =
      (.ok (), t) := by
    rw [replayEventsAfterTip, Dag.iter_ofNodes hr.nodup, hnodes]
    exact htail
  have hrederive : rederiveCultivationFromDag (.ofNodes (xs ++ n :: ys)) t = (.ok (), full) := by
    rw [rederiveCultivationFromDag, Dag.iter_ofNodes hr.nodup, ← hu]
    exact hred
  rw [bootFromSnapshot, DerivedState.fromCanonicalBytes_to hbs hmem, ok_bind]
  simp only [toReading_eq_ok.2 hreplay, ok_bind, toReading_eq_ok.2 hrederive]

/-! ### A log with one absorption -/

def contentOf (v : Value) : Bytes := (encode v).toOption.getD []

def genesisCall : Insertion :=
  ⟨[], "genesis_event:0.1", 0, contentOf (mapOf
    [("substrate_id", .bytes (.replicate 32 5)), ("genesis_time_unix_ns", .timestamp 17)])⟩

def materialCall : Insertion :=
  ⟨[(genesisCall.node lengthHash).hash], "raw_material:text", 0, [1, 2]⟩

def absorptionCall : Insertion :=
  let material := (materialCall.node lengthHash).hash
  ⟨[material], "absorption_event:cycle_1", 1, contentOf (mapOf
    [("cycle", .uint 1), ("absorbed_hashes", .array [.bytes material.bytes])])⟩

/-- Booting from a snapshot taken after the genesis. -/
theorem snapshot_boot_small_log :
    ∃ s bs, fromDag (.ofNodes ([] ++ [genesisCall.node lengthHash])) = .ok s ∧
      s.toCanonicalBytes (some (genesisCall.node lengthHash).hash) = some bs ∧
      (bs.length ≤ isizeMax →
        bootFromSnapshot (insertAll lengthHash [genesisCall, materialCall, absorptionCall]) bs =
          .ok (some ⟨some (.replicate 5), some 17, 0, 0, some 0, [], none, [], none⟩)) := by
  have hsplit : (insertAll lengthHash [genesisCall, materialCall, absorptionCall]).iterInInsertionOrder
      = [] ++ genesisCall.node lengthHash ::
        [materialCall.node lengthHash, absorptionCall.node lengthHash] := by decide +kernel
  have hfull : fromDag (insertAll lengthHash [genesisCall, materialCall, absorptionCall]) =
      .ok ⟨some (.replicate 5), some 17, 0, 0, some 0, [], none, [], none⟩ :=
    toOption_eq_some.1 (by decide +kernel)
  have habs : AbsorbsOwnParents (insertAll lengthHash [genesisCall, materialCall, absorptionCall]) := by
    unfold AbsorbsOwnParents
    decide +kernel
  exact snapshot_boot _ hsplit hfull habs

end Myco.Substrate
