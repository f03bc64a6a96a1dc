import Myco.Tropism.Replay

/-!
# The papers of a birth

The spawn-cosign envelope, the record `genesis_attested` that a parent keeps of it, and the marker
in the child's own log (`substrate/src/events/attestation.rs`); and the shape that a spore-schema
must have (`kernel/schema/src/spore.rs`). What is written of an attestation reads back
(`decode_genesisAttested`).
-/

namespace Myco.Reproduction

open Myco.Lib Myco.Canonical Myco.Schema Myco.Substrate Myco.Tropism

/-! ### The envelope -/

def spawnCosignDomain : String := "myco-spawn-cosign-v1"

structure SpawnCosign where
  parentSubstrateId : Hash32
  sporeSchemaHash : Hash32
  childGenesisTimestampUnixNs : Int64
  anchorTimestampUnixNs : Int64
  anchorNonce : Hash32
  depthOverride : Bool
deriving DecidableEq

def SpawnCosign.entries (c : SpawnCosign) : List (String × Value) :=
  [("domain", .string spawnCosignDomain), ("parent_substrate_id", hashValue c.parentSubstrateId),
    ("spore_schema_hash", hashValue c.sporeSchemaHash),
    ("child_genesis_timestamp_unix_ns", .timestamp c.childGenesisTimestampUnixNs),
    ("anchor_timestamp_unix_ns", .timestamp c.anchorTimestampUnixNs),
    ("anchor_nonce", hashValue c.anchorNonce), ("depth_override", .bool c.depthOverride)]

def buildSpawnCosignCanonicalBytes (c : SpawnCosign) : Bytes := cbEncode c.entries

def decodeSpawnCosign (bytes : Bytes) : Option SpawnCosign := do
  let m ← decodeMap? bytes
  if string? m "domain" = some spawnCosignDomain then
    return ⟨← bytes32? m "parent_substrate_id", ← bytes32? m "spore_schema_hash",
      ← timestamp? m "child_genesis_timestamp_unix_ns", ← timestamp? m "anchor_timestamp_unix_ns",
      ← bytes32? m "anchor_nonce", ← bool? m "depth_override"⟩
  else none

/-! ### The record of a birth -/

def genesisAttestedPrefix : String := "genesis_attested:"

def genesisAttestedNodeType (childSubstrateId : Hash32) : String :=
  genesisAttestedPrefix ++ hexPrefix childSubstrateId.bytes 8

structure GenesisAttested where
  spawnCosignEnvelope : Bytes
  parentSubstrateId : Hash32
  childSubstrateId : Hash32
  sporeSchemaHash : Hash32
  childStaticSchemaValid : Bool
  emittedAtCycle : UInt64
deriving DecidableEq

def encodeGenesisAttestedEvent (g : GenesisAttested) : Bytes :=
  cbEncode [("spawn_cosign_envelope", .bytes g.spawnCosignEnvelope),
    ("parent_substrate_id", hashValue g.parentSubstrateId),
    ("child_substrate_id", hashValue g.childSubstrateId),
    ("spore_schema_hash", hashValue g.sporeSchemaHash),
    ("child_static_schema_valid", .bool g.childStaticSchemaValid),
    ("emitted_at_cycle", .uint g.emittedAtCycle)]

def decodeGenesisAttestedEvent (bytes : Bytes) : Option GenesisAttested := do
  let m ← decodeMap? bytes
  return ⟨← blob? m "spawn_cosign_envelope", ← bytes32? m "parent_substrate_id",
    ← bytes32? m "child_substrate_id", ← bytes32? m "spore_schema_hash",
    ← bool? m "child_static_schema_valid", ← uint? m "emitted_at_cycle"⟩

def birthClosurePendingPrefix : String := "birth_closure_pending:"

def birthClosurePendingNodeType (parentSubstrateId : Hash32) : String :=
  birthClosurePendingPrefix ++ hexPrefix parentSubstrateId.bytes 8

def encodeBirthClosurePending (parentSubstrateId childSubstrateId sporeSchemaHash : Hash32) :
    Bytes :=
  cbEncode [("parent_substrate_id", hashValue parentSubstrateId),
    ("child_substrate_id", hashValue childSubstrateId),
    ("spore_schema_hash", hashValue sporeSchemaHash)]

/-! ### The shape of a spore-schema -/

inductive SporeError where
  | missingRequiredField (field : String)
  | canonicalBytes (e : CanonicalBytesError)
  | malformedSpore (what : String)

def requiredSporeFields : List String :=
  ["schema_definitions", "canonical_bytes_serializer_spec", "sporocarp_type_tree",
    "classifier_dimension_table", "initial_appetite_axis_schema", "anchor_surface_config",
    "parent_immune_signal_summary"]

/-- `None | Some(Value::Null)` -/
def lacks (m : List (String × Value)) (field : String) : Bool :=
  match OrdMap.get field m with
  | none | some .null => true
  | some _ => false

def validateCanonicalBytesShape (bytes : Bytes) : Except (Fault SporeError) Unit :=
  match decode bytes with
  | .error e => .error (e.map .canonicalBytes)
  | .ok (.map m) =>
    match requiredSporeFields.find? (lacks m) with
    | some field => .error (.err (.missingRequiredField field))
    | none => .ok ()
  | .ok _ => .error (.err (.malformedSpore "spore-schema is not a Map"))

/-! ### What is written reads back -/

theorem bool?_eq {m : List (String × Value)} {k : String} {b : Bool}
    (h : OrdMap.get k m = some (.bool b)) : bool? m k = some b := by
  rw [bool?, h]
  rfl

theorem decode_genesisAttested {g : GenesisAttested}
    (hmem : (encodeGenesisAttestedEvent g).length ≤ isizeMax) :
    decodeGenesisAttestedEvent (encodeGenesisAttestedEvent g) = some g := by
  rw [encodeGenesisAttestedEvent] at hmem
  have hmap := decodeMap?_cbEncode hmem (by simp [hashValue, Value.WF])
  rw [← encodeGenesisAttestedEvent] at hmap
  generalize hm : OrdMap.ofList utf8 _ = m at hmap
  have hget : ∀ k, OrdMap.get k m = _ := fun k => hm ▸ get_mapOf
  rw [decodeGenesisAttestedEvent, hmap, Option.bind_eq_bind, Option.bind_some,
    blob?_eq (b := g.spawnCosignEnvelope) (by simp [hget, OrdMap.get_cons]),
    bytes32?_eq (h := g.parentSubstrateId) (by simp [hget, OrdMap.get_cons]),
    bytes32?_eq (h := g.childSubstrateId) (by simp [hget, OrdMap.get_cons]),
    bytes32?_eq (h := g.sporeSchemaHash) (by simp [hget, OrdMap.get_cons]),
    bool?_eq (b := g.childStaticSchemaValid) (by simp [hget, OrdMap.get_cons]),
    uint?_eq (n := g.emittedAtCycle) (by simp [hget, OrdMap.get_cons])]
  rfl

end Myco.Reproduction
