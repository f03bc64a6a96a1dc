import Myco.Substrate.ServerState

/-!
# The events and what replaying them does

Node types and contents of the events that the handlers append (`substrate/src/events/`). For
those that replaying looks at, `apply_*` says what it reads back from the content that was
written: the family of the type decides the handler, and the content decodes to the map that was
encoded (`decodeEventMap_cbEncode`).
-/

namespace Myco.Substrate

open Myco.Lib Myco.Canonical Myco.Schema Myco.Federation

/-! ### Genesis and cycles -/

def hexDigit (n : Nat) : Char := if n < 10 then Char.ofNat (48 + n) else Char.ofNat (87 + n)

/-- Each byte as two hexadecimal digits. -/
def hexEncode (bytes : Bytes) : String :=
  String.ofList (bytes.flatMap fun b => [hexDigit (b.toNat / 16), hexDigit (b.toNat % 16)])

def hexPrefix (bytes : Bytes) (n : Nat) : String := hexEncode (bytes.take n)

def genesisEventNodeType (substrateId : Hash32) : String :=
  genesisPrefix ++ hexPrefix substrateId.bytes 8

def encodeGenesisEvent (substrateId : Hash32) (genesisTimeUnixNs : Int64)
    (generationDepth : UInt64) : Bytes :=
  cbEncode ([("substrate_id", hashValue substrateId),
    ("genesis_time_unix_ns", .timestamp genesisTimeUnixNs)] ++
    entryIf "generation_depth" .uint (if generationDepth ≠ 0 then some generationDepth else none))

def encodeCycleAdvanced (priorCycle newCycle : UInt64) : Bytes :=
  cbEncode [("prior_cycle", .uint priorCycle), ("new_cycle", .uint newCycle)]

def cultivarInitiatedIngestionRequestType : String := "cultivar_initiated_ingestion_request"

def encodeCultivarInitiatedIngestionRequest (atCycle cyclesSinceLastIngestion : UInt64)
    (everFed : Bool) : Bytes :=
  cbEncode [("at_cycle", .uint atCycle),
    ("cycles_since_last_ingestion", .uint cyclesSinceLastIngestion), ("ever_fed", .bool everFed)]

/-! ### Absorption -/

def absorptionEventNodeType (cycle : UInt64) : String := s!"{absorptionPrefix}{cycle}"

def encodeAbsorptionEvent (cycle : UInt64) (absorbed : List NodeHash) : Bytes :=
  cbEncode [("cycle", .uint cycle), ("absorbed_count", .uint (UInt64.ofNat absorbed.length)),
    ("absorbed_hashes", .array (absorbed.map hashValue))]

/-! ### Internal mortality -/

def internalMortalityEventPrefix : String := "internal_mortality_event:"

def encodeInternalMortalityEvent (category ruleId : String) (killedPartHash : Hash32)
    (killedPartNodeType reason : String) (replacedByHash : Option Hash32)
    (emittedAtCycle : UInt64) : Bytes :=
  cbEncode [("category", .string category), ("rule_id", .string ruleId),
    ("killed_part_hash", hashValue killedPartHash),
    ("killed_part_node_type", .string killedPartNodeType), ("reason", .string reason),
    ("replaced_by_hash", replacedByHash.elim .null hashValue),
    ("emitted_at_cycle", .uint emittedAtCycle)]

/-! ### Schema migration -/

def migrationCycleValidatedPrefix : String := "schema_migration_cycle_validated:"

def encodeSchemaMigrationStarted (op : String) (schemaDiff : Bytes)
    (startedAtCycle window : UInt64) (startedAtUnixNs : Int64) : Bytes :=
  cbEncode [("op", .string op), ("schema_diff_canonical_bytes", .bytes schemaDiff),
    ("started_at_cycle", .uint startedAtCycle), ("dual_validation_window_cycles", .uint window),
    ("started_at_unix_ns", .timestamp startedAtUnixNs)]

def encodeSchemaMigrationCycleValidated (op : String) (atCycle : UInt64) (equivalent : Bool)
    (divergenceReason : String) : Bytes :=
  cbEncode [("op", .string op), ("at_cycle", .uint atCycle), ("equivalent", .bool equivalent),
    ("divergence_reason", .string divergenceReason)]

def encodeSchemaMigrationCommitted (op : String)
    (committedAtCycle startedAtCycle window : UInt64) : Bytes :=
  cbEncode [("op", .string op), ("committed_at_cycle", .uint committedAtCycle),
    ("started_at_cycle", .uint startedAtCycle), ("dual_validation_window_cycles", .uint window)]

def encodeSchemaMigrationRolledBack (op reason : String) (rolledBackAtCycle : UInt64) : Bytes :=
  cbEncode [("op", .string op), ("reason", .string reason),
    ("rolled_back_at_cycle", .uint rolledBackAtCycle)]

def evolutionSucceededPrefix : String := "evolution_succeeded:"
def evolutionFailedPrefix : String := "evolution_failed:"

/-! ### The content comes back -/

theorem encode_eq_contentOf {v : Value} : encode v = .ok (contentOf v) := by
  obtain ⟨bs, h⟩ := encode_total v
  rw [contentOf, h]
  rfl

/-- `decode(bytes).ok()?`, if it is a map. -/
def decodeMap? (bytes : Bytes) : Option (List (String × Value)) :=
  match decode bytes with
  | .ok (.map m) => some m
  | _ => none

theorem decode_cbEncode {es : List (String × Value)} (hmem : (cbEncode es).length ≤ isizeMax)
    (hwf : ∀ e ∈ es, e.2.WF) : decode (cbEncode es) = .ok (mapOf es) :=
  decode_of_encode (mapOf_wf hwf) encode_eq_contentOf hmem

theorem decodeMap?_cbEncode {es : List (String × Value)} (hmem : (cbEncode es).length ≤ isizeMax)
    (hwf : ∀ e ∈ es, e.2.WF) : decodeMap? (cbEncode es) = some (OrdMap.ofList utf8 es) := by
  rw [decodeMap?, decode_cbEncode hmem hwf]
  rfl

theorem decodeEventMap_cbEncode {node : DagNode} {es : List (String × Value)}
    (hc : node.content = cbEncode es) (hmem : node.content.length ≤ isizeMax)
    (hwf : ∀ e ∈ es, e.2.WF) : decodeEventMap node = .ok (OrdMap.ofList utf8 es) := by
  rw [decodeEventMap, hc, decode_cbEncode (hc ▸ hmem) hwf]
  rfl

/-! ### Reading a map -/

def string? (map : List (String × Value)) (field : String) : Option String :=
  (OrdMap.get field map).bind Value.string?

def blob? (map : List (String × Value)) (field : String) : Option Bytes :=
  (OrdMap.get field map).bind Value.bytes?

def items? (map : List (String × Value)) (field : String) : Option (List Value) :=
  (OrdMap.get field map).bind Value.array?

/-- `Some(Value::Bytes(b)) if b.len() == 64`. -/
def bytes64? (map : List (String × Value)) (field : String) : Option Signature :=
  match OrdMap.get field map with
  | some (.bytes b) => if h : b.length = 64 then some ⟨b, h⟩ else none
  | _ => none

section

variable {m : List (String × Value)} {k : String}

theorem string?_eq {s : String} (h : OrdMap.get k m = some (.string s)) : string? m k = some s := by
  rw [string?, h]
  rfl

theorem blob?_eq {b : Bytes} (h : OrdMap.get k m = some (.bytes b)) : blob? m k = some b := by
  rw [blob?, h]
  rfl

theorem items?_eq {l : List Value} (h : OrdMap.get k m = some (.array l)) :
    items? m k = some l := by
  rw [items?, h]
  rfl

theorem uint?_eq {n : UInt64} (h : OrdMap.get k m = some (.uint n)) : uint? m k = some n := by
  rw [uint?, h]

theorem bytes32?_eq {h : Hash32} (hg : OrdMap.get k m = some (hashValue h)) :
    bytes32? m k = some h := by
  rw [bytes32?, hg]
  simp [hashValue, h.length_eq]

theorem bytes64?_eq {s : Signature} (h : OrdMap.get k m = some (.bytes s.bytes)) :
    bytes64? m k = some s := by
  rw [bytes64?, h]
  simp [s.length_eq]

end

/-- What is written says what was written. -/
theorem cbEncode_inj {es fs : List (String × Value)} (he : ∀ e ∈ es, e.2.WF)
    (hf : ∀ e ∈ fs, e.2.WF) (fe : (mapOf es).canonical.Every FitsU64)
    (ff : (mapOf fs).canonical.Every FitsU64) (h : cbEncode es = cbEncode fs) (k : String) :
    OrdMap.get k (OrdMap.ofList utf8 es) = OrdMap.get k (OrdMap.ofList utf8 fs) := by
  have henc : encode (mapOf es) = encode (mapOf fs) := by
    rw [encode_eq_contentOf, encode_eq_contentOf]
    exact congrArg Except.ok h
  have hmap := encode_inj (mapOf_wf he) (mapOf_wf hf) fe ff henc
  rw [Value.map.inj hmap]

theorem string?_fits {bytes : Bytes} {m : List (String × Value)} {k s : String}
    (hm : decodeMap? bytes = some m) (h : string? m k = some s) : (utf8 s).length < 2 ^ 64 := by
  rw [string?, Option.bind_eq_some_iff] at h
  obtain ⟨v, hv, hs⟩ := h
  rw [Value.string?_eq] at hs
  subst hs
  unfold decodeMap? at hm
  split at hm
  · rename_i m' hd
    cases hm
    exact string_fits (fits_of_get (fits_of_decode hd) hv)
  · cases hm

/-! ### The replayed events -/

section

variable {node : DagNode} {dag : Option Dag} {d : DerivedState}

theorem family_migrationStarted {nt : String} (h : startsWith migrationStartedPrefix nt) :
    family nt = .migrationStarted := by
  unfold family
  rw [if_neg (not_startsWith h (by decide)), if_neg (ne_of_startsWith h (by decide)),
    if_neg (not_startsWith h (by decide)), if_pos h]

theorem family_migrationEnded {p nt : String} (h : startsWith p nt)
    (hp : p = migrationCommittedPrefix ∨ p = migrationRolledBackPrefix) :
    family nt = .migrationEnded := by
  unfold family
  rcases hp with rfl | rfl
  · rw [if_neg (not_startsWith h (by decide)), if_neg (ne_of_startsWith h (by decide)),
      if_neg (not_startsWith h (by decide)), if_neg (not_startsWith h (by decide)), if_pos (.inl h)]
  · rw [if_neg (not_startsWith h (by decide)), if_neg (ne_of_startsWith h (by decide)),
      if_neg (not_startsWith h (by decide)), if_neg (not_startsWith h (by decide)), if_pos (.inr h)]

theorem apply_pureRecord (h : family node.nodeType = .pureRecord) :
    applyEventWithDag dag node d = (.ok (), d) := by
  rw [applyEventWithDag, h]

theorem apply_migrationEnded (h : family node.nodeType = .migrationEnded) :
    applyEventWithDag dag node d = (.ok (), { d with migrationCandidate := none }) := by
  rw [applyEventWithDag, h]

theorem apply_genesis {id : Hash32} {t : Int64} {depth : UInt64}
    (ht : node.nodeType = genesisEventNodeType id) (hc : node.content = encodeGenesisEvent id t depth)
    (hmem : node.content.length ≤ isizeMax) (hd : d.substrateId = none) :
    applyEventWithDag dag node d = (.ok (), { d with
      substrateId := some id, genesisTimeUnixNs := some t, generationDepth := depth }) := by
  have hf : family node.nodeType = .genesis := by
    have : startsWith genesisPrefix node.nodeType := ht ▸ startsWith_append
    rw [family, if_pos this]
  have hwf : ∀ e ∈ [("substrate_id", hashValue id), ("genesis_time_unix_ns", .timestamp t)] ++
      entryIf "generation_depth" .uint (if depth ≠ 0 then some depth else none), e.2.WF := by
    intro e he
    rw [List.mem_append, mem_entryIf] at he
    rcases he with he | ⟨n, -, rfl⟩
    · revert e
      simp [hashValue, Value.WF]
    · trivial
  have hmap := decodeEventMap_cbEncode hc hmem hwf
  generalize hm : OrdMap.ofList utf8 _ = m at hmap
  have hget : ∀ k, OrdMap.get k m = _ := fun k => hm ▸ get_mapOf
  simp only [List.reverse_append, OrdMap.get_append, get_entryIf] at hget
  rw [applyEventWithDag, hf]
  refine applyGenesis_eq_ok.2 ⟨hd, m, id, t, hmap, ?_, ?_, ?_⟩
  · simp [bytes32Field, mapGetBytes, mapGet, hget, OrdMap.get_cons, hashValue, Value.bytes?,
      canonicalField, Except.mapError, id.length_eq]
  · simp [timestampField, hget, OrdMap.get_cons]
  · rw [uintOrZero_of_get (n := depth) (by simp [hget, OrdMap.get_cons])]

theorem hashesOf_map_hashValue {hs : List NodeHash} : hashesOf (hs.map hashValue) = hs := by
  rw [hashesOf, List.filterMap_map]
  refine (List.filterMap_congr fun h _ => ?_).trans List.filterMap_some
  simp [hashValue, h.length_eq]

theorem encodeAbsorptionEvent_read {cycle : UInt64} {hs : List NodeHash}
    (hc : node.content = encodeAbsorptionEvent cycle hs) (hmem : node.content.length ≤ isizeMax) :
    ∃ map, decodeEventMap node = .ok map ∧ uintField node map "cycle" = .ok cycle ∧
      OrdMap.get "absorbed_hashes" map = some (.array (hs.map hashValue)) := by
  have hwf : WFItems (hs.map hashValue) := by
    rw [wfItems_iff]
    intro v hv
    obtain ⟨h, -, rfl⟩ := List.mem_map.1 hv
    trivial
  refine ⟨_, decodeEventMap_cbEncode hc hmem (by simp [Value.WF, hwf]), ?_, ?_⟩
  · simp [uintField, mapGetUint, mapGet, get_mapOf, OrdMap.get_cons, Value.uint?, canonicalField,
      Except.mapError]
  · simp [get_mapOf, OrdMap.get_cons]

theorem absorbedHashes_eq {cycle : UInt64} {hs : List NodeHash}
    (hc : node.content = encodeAbsorptionEvent cycle hs) (hmem : node.content.length ≤ isizeMax) :
    absorbedHashes node = hs := by
  obtain ⟨map, h1, -, h2⟩ := encodeAbsorptionEvent_read hc hmem
  rw [absorbedHashes, h1]
  simp only [h2, hashesOf_map_hashValue]

theorem readMigrationStarted_encode {op : String} {diff : Bytes} {cycle window : UInt64} {t : Int64}
    (hc : node.content = encodeSchemaMigrationStarted op diff cycle window t)
    (hmem : node.content.length ≤ isizeMax) :
    readMigrationStarted node = .ok ⟨op, diff, cycle, window, t⟩ := by
  rw [readMigrationStarted, decodeEventMap_cbEncode hc hmem (by simp [Value.WF]), ok_bind]
  simp [stringField, bytesField, uintField, timestampField, mapGetUint, mapGet, get_mapOf,
    OrdMap.get_cons, Value.uint?, canonicalField, Except.mapError]

end

end Myco.Substrate
