import Myco.Canonical.Length
import Myco.Federation.Handlers

/-!
# Taking in material

`handle_ingest_raw_material` of `substrate/src/ingest.rs`: what the operator presents becomes a node
on the tip, unless the substrate has been out of budget for too long. The material may be twice as
large as what a peer accepts of it.
-/

namespace Myco.Substrate

open Myco.Lib Myco.Canonical Myco.Schema Myco.Federation

variable {env : Env}

/-! ### The code -/

def p02RefusalSustainedCycles : UInt64 := 3

def maxIngestionBytes : Nat := 512 * 1024

/-- The axis that ran out last, and of several the last one in the map. -/
def mostRecentExhaustedAxis (s : ServerState env) : String :=
  let latest := s.lastBudgetExhaustedPerAxis.foldl (fun best e =>
    match best with
    | some (b : String × UInt64) => if b.2 ≤ e.2 then some e else some b
    | none => some e) none
  (latest.map Prod.fst).getD "unknown"

def ingestResponseType : String := "ingest_raw_material_response"

/-- The content of a node for some material. -/
def encodeRawMaterial (contentKind : String) (contentBytes : Bytes) (sourceUri : Option String)
    (metaValue : Option Value) : Bytes :=
  cbEncode ([("kind", .string contentKind), ("bytes", .bytes contentBytes)] ++
    entryIf "source_uri" .string sourceUri ++ entryIf "meta" id metaValue)

def nonEmptyString? (payload : List (String × Value)) (field : String) : Option String :=
  (string? payload field).filter (· ≠ "")

/-- The node for some material, and the answer. -/
def insertMaterial (request : Message) (contentKind : String) (contentBytes : Bytes) :
    Handler env (Option Message) := do
  let s ← get
  let nodeHash ← insertNode "raw_material DAG insert" ⟨s.tipParents, rawMaterialPrefix ++ contentKind,
    s.cycleCounter, encodeRawMaterial contentKind contentBytes
      (string? request.payload "source_uri") (OrdMap.get "meta" request.payload)⟩
  let s ← get
  pure (respond ingestResponseType request ([("refused", .bool false),
    ("dag_node_hash", hashValue nodeHash)] ++ entryIf "current_tip" hashValue s.ledger.tip ++
    [("total_dag_size", .uint s.nodeCount)]))

def handleIngestRawMaterial (request : Message) : Handler env (Option Message) := do
  let s ← get
  if s.saturationStage ≠ .normal ∧
      s.consecutiveBudgetExhaustedCycles ≥ p02RefusalSustainedCycles then
    pure (respond ingestResponseType request [("refused", .bool true),
      ("reason", .string "budget_exhausted"), ("axis", .string (mostRecentExhaustedAxis s)),
      ("saturation_stage", .string s.saturationStage.asStr)])
  else
    match nonEmptyString? request.payload "content_kind", blob? request.payload "content_bytes" with
    | none, _ => throw (.protocol "ingest_raw_material: content_kind must be a non-empty String")
    | some _, none => throw (.protocol "ingest_raw_material: content_bytes must be Bytes")
    | some contentKind, some contentBytes =>
      if contentBytes.length > maxIngestionBytes then
        throw (.protocol s!"ingest_raw_material: content_bytes size {
          contentBytes.length} exceeds {maxIngestionBytes}-byte cap")
      else insertMaterial request contentKind contentBytes

/-! ### Material that is taken in -/

section

variable {b : Bytes}

theorem encodeRawMaterial_length {contentKind : String} :
    (encodeRawMaterial contentKind b none none).length =
      17 + prefixedSize (utf8 contentKind).length + prefixedSize b.length := by
  have hkeys : ([("kind", Value.string contentKind), ("bytes", .bytes b)].map Prod.fst).Nodup := by
    show ["kind", "bytes"].Nodup
    decide
  have hkind : keySize "kind" = 6 := by decide
  have hbytes : keySize "bytes" = 7 := by decide
  show (cbEncode [("kind", Value.string contentKind), ("bytes", .bytes b)]).length = _
  rw [cbEncode, encode_length encode_eq_contentOf, size_mapOf hkeys]
  simp only [List.length_cons, List.length_nil, List.map_cons, List.map_nil, List.sum_cons,
    List.sum_nil, Value.size, hkind, hbytes, lenVarint_of_lt (show 0 + 1 + 1 < 128 by decide)]
  omega

def ingestRequest (b : Bytes) : Message :=
  ⟨"ingest_raw_material", 1, [("content_bytes", .bytes b), ("content_kind", .string "text")]⟩

/-- A substrate with an empty log takes in whatever is not too large. -/
theorem ingest_first (hb : b.length ≤ maxIngestionBytes) : ∃ x, ∃ t : ServerState env,
    (handleIngestRawMaterial (ingestRequest b)).exec (stateOf env []) = some (.ok x, t) ∧
    ∃ n, t.nodes = [n] ∧ n.nodeType = "raw_material:text" ∧ n.parentHashes = [] ∧
      n.content = encodeRawMaterial "text" b none none := by
  have hkind : nonEmptyString? (ingestRequest b).payload "content_kind" = some "text" := by
    simp [nonEmptyString?, string?, ingestRequest, OrdMap.get_cons, Value.string?]
  have hbytes : blob? (ingestRequest b).payload "content_bytes" = some b := by
    simp [blob?, ingestRequest, OrdMap.get_cons, Value.bytes?]
  have huri : string? (ingestRequest b).payload "source_uri" = none := by
    simp [string?, ingestRequest, OrdMap.get_cons]
  have hmeta : OrdMap.get "meta" (ingestRequest b).payload = none := by
    simp [ingestRequest, OrdMap.get_cons]
  have hnormal : ¬ ((stateOf env []).saturationStage ≠ .normal ∧
      (stateOf env []).consecutiveBudgetExhaustedCycles ≥ p02RefusalSustainedCycles) :=
    fun h => h.1 rfl
  rw [handleIngestRawMaterial, Prog.exec_get_bind, if_neg hnormal, hkind, hbytes]
  dsimp only
  rw [if_neg (Nat.not_lt.2 hb), insertMaterial, Prog.exec_get_bind, huri, hmeta, Prog.exec_bind,
    exec_insertNode]
  generalize hc : (⟨(stateOf env []).tipParents, rawMaterialPrefix ++ "text",
    (stateOf env []).cycleCounter, encodeRawMaterial "text" b none none⟩ : Insertion) = c
  have hcontent : c.content = encodeRawMaterial "text" b none none := by rw [← hc]
  have htype : c.nodeType = rawMaterialPrefix ++ "text" := by rw [← hc]
  have hparents : c.parentHashes = [] := by
    rw [← hc]
    rfl
  have halloc : Allocates (stateOf env []).ledger c := by
    refine ⟨?_, show 32 * (0 + 1) ≤ isizeMax by decide⟩
    have hvarint : (lenVarint b.length).length ≤ 10 := lenVarint_length_le
    have htext : prefixedSize (utf8 "text").length = 5 := by decide
    rw [hcontent, encodeRawMaterial_length, htext, prefixedSize]
    simp only [maxIngestionBytes, isizeMax] at hb ⊢
    omega
  rw [if_pos halloc, Option.bind_some]
  rcases Ledger.push_cases (stateOf env []).ledger c with
    ⟨e, href, -⟩ | ⟨n, hn, -⟩ | ⟨hans, hn⟩
  · cases href with
    | emptyNodeType h =>
      rw [htype] at h
      exact absurd h (by decide)
    | parentNotFound h _ =>
      rw [hparents] at h
      cases h
    | hashCollision hn _ _ => cases hn
  · cases hn
  · rw [hans]
    exact ⟨_, _, rfl, _, hn, htype, hparents, hcontent⟩

end

end Myco.Substrate
