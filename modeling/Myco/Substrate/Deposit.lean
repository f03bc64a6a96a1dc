import Myco.Federation.Handlers
import Myco.Substrate.Absorption
import Myco.Substrate.Plates

/-!
# Depositing a forged understanding

`handle_deposit_forged_understanding` of `substrate/src/ingest.rs`: what the operator has made of
some material becomes a plate on the tip and on that material. A plate may say which plates it
supersedes; each of them must be there, and be a plate.

`deposit_cases` is the one lemma about the handler: it leaves the log alone, or adds a plate that
supersedes plates of the log.
-/

namespace Myco.Substrate

open Myco.Lib Myco.Canonical Myco.Schema Myco.Federation Myco.Prune

variable {env : Env}

/-! ### The code -/

def maxUnderstandingBytes : Nat := 512 * 1024

def depositError (text : String) : SubstrateError :=
  .protocol s!"deposit_forged_understanding: {text}"

/-- One entry of an array of hashes. -/
def entryHash (field : String) : Value → Except SubstrateError NodeHash
  | .bytes b => if h : b.length = 32 then .ok ⟨b, h⟩
    else .error (depositError s!"each {field} entry must be 32 Bytes")
  | _ => .error (depositError s!"each {field} entry must be 32 Bytes")

/-- An array of hashes that may be missing. -/
def optionalHashes (payload : List (String × Value)) (field : String) :
    Except SubstrateError (List NodeHash) :=
  match OrdMap.get field payload with
  | none => .ok []
  | some (.array items) => items.mapM (entryHash field)
  | some _ => .error (depositError s!"{field} must be an Array of Bytes")

/-- The node is there and its type is of the kind asked for. -/
def checkCited (s : ServerState env) (absent cited nodePrefix kind : String) (h : NodeHash) :
    Except SubstrateError Unit :=
  match s.ledger.dag.get h with
  | none => .error (depositError s!"{absent} {hexEncode h.bytes} not found in DAG")
  | some n =>
    if startsWith nodePrefix n.nodeType then .ok ()
    else .error (depositError s!"{cited} {hexEncode h.bytes} references a {
      env.debugText n.nodeType} node, not {kind}")

/-- A number from 0 to 100 that may be missing. -/
def optionalPercent (payload : List (String × Value)) (field : String) :
    Except SubstrateError (Option UInt64) :=
  match OrdMap.get field payload with
  | none => .ok none
  | some (.uint v) =>
    if v ≤ 100 then .ok (some v)
    else .error (depositError s!"{field} {v} out of range (expected Uint 0..=100)")
  | some _ => .error (depositError s!"{field} must be a Uint (0..=100)")

structure Deposit where
  label : String
  understanding : Bytes
  sourceHashes : List NodeHash
  value : Option UInt64
  confidence : Option UInt64
  supersedesHashes : List NodeHash

/-- What the request asks to deposit, or what is wrong with it. -/
def checkDeposit (s : ServerState env) (payload : List (String × Value)) :
    Except SubstrateError Deposit :=
  match (string? payload "label").filter (· ≠ ""), blob? payload "understanding" with
  | none, _ => .error (depositError "label must be a non-empty String")
  | some _, none => .error (depositError "understanding must be Bytes")
  | some label, some understanding =>
    if understanding.length > maxUnderstandingBytes then
      .error (depositError s!"understanding size {understanding.length} exceeds {
        maxUnderstandingBytes}-byte cap")
    else do
      let sourceHashes ← optionalHashes payload "source_raw_material_hashes"
      sourceHashes.forM
        (checkCited s "source_raw_material_hash" "hash" rawMaterialPrefix "raw_material")
      let value ← optionalPercent payload "value"
      let confidence ← optionalPercent payload "confidence"
      let supersedesHashes ← optionalHashes payload "supersedes"
      supersedesHashes.forM (checkCited s "supersedes hash" "supersedes hash"
        forgedUnderstandingPrefix "forged_understanding")
      .ok ⟨label, understanding, sourceHashes, value, confidence, supersedesHashes⟩

def forgedUnderstandingEntries (d : Deposit) (forgedAtCycle : UInt64) : List (String × Value) :=
  [("label", .string d.label), ("understanding", .bytes d.understanding),
    ("source_raw_material_hashes", .array (d.sourceHashes.map hashValue)),
    ("forged_at_cycle", .uint forgedAtCycle)] ++
  entryIf "value" .uint d.value ++ entryIf "confidence" .uint d.confidence ++
  entryIf "supersedes" (fun hs : List NodeHash => .array (hs.map hashValue))
    (if d.supersedesHashes.isEmpty then none else some d.supersedesHashes)

def encodeForgedUnderstanding (d : Deposit) (forgedAtCycle : UInt64) : Bytes :=
  cbEncode (forgedUnderstandingEntries d forgedAtCycle)

/-- The node for a deposit, on the tip and on its sources. -/
def depositInsertion (s : ServerState env) (d : Deposit) : Insertion :=
  ⟨absorptionParents s d.sourceHashes, forgedUnderstandingPrefix ++ d.label, s.cycleCounter,
    encodeForgedUnderstanding d s.cycleCounter⟩

def handleDepositForgedUnderstanding (request : Message) : Handler env (Option Message) := do
  let s ← get
  match checkDeposit s request.payload with
  | .error e => throw e
  | .ok d =>
    let nodeHash ← insertNode "forged_understanding DAG insert" (depositInsertion s d)
    let s ← get
    pure (respond "deposit_forged_understanding_response" request ([("refused", .bool false),
      ("dag_node_hash", hashValue nodeHash)] ++ entryIf "current_tip" hashValue s.ledger.tip ++
      [("total_dag_size", .uint s.nodeCount)]))

/-! ### What it checks -/

/-- A deposit that passes supersedes plates of the log. -/
theorem checkDeposit_supersedes {s : ServerState env} {payload : List (String × Value)}
    {d : Deposit} (h : checkDeposit s payload = .ok d) : ∀ k ∈ d.supersedesHashes,
      ∃ m ∈ s.nodes, m.hash = k ∧ startsWith forgedUnderstandingPrefix m.nodeType := by
  unfold checkDeposit at h
  split at h
  · cases h
  · cases h
  · split at h
    · cases h
    · obtain ⟨sources, -, h⟩ := bind_eq_ok.1 h
      obtain ⟨_, -, h⟩ := bind_eq_ok.1 h
      obtain ⟨value, -, h⟩ := bind_eq_ok.1 h
      obtain ⟨confidence, -, h⟩ := bind_eq_ok.1 h
      obtain ⟨hashes, -, h⟩ := bind_eq_ok.1 h
      obtain ⟨_, hcheck, h⟩ := bind_eq_ok.1 h
      cases h
      intro k hk
      have hone := forM_eq_ok hcheck k hk
      unfold checkCited at hone
      split at hone
      · cases hone
      · rename_i m hm
        split at hone
        · exact ⟨m, (s.ledger.get_eq_some.1 hm).1, (s.ledger.get_eq_some.1 hm).2, ‹_›⟩
        · cases hone

/-! ### What a plate says -/

theorem forgedUnderstandingEntries_wf {d : Deposit} {cycle : UInt64} :
    ∀ e ∈ forgedUnderstandingEntries d cycle, e.2.WF := by
  have hitems : ∀ hs : List NodeHash, WFItems (hs.map hashValue) := by
    intro hs
    simp [wfItems_iff, hashValue, Value.WF]
  intro e he
  unfold forgedUnderstandingEntries entryIf at he
  cases hv : d.value <;> cases hc : d.confidence <;>
    cases hs : d.supersedesHashes.isEmpty <;>
    simp [hv, hc, hs] at he <;> grind [Value.WF]

theorem get_supersedes {d : Deposit} {cycle : UInt64} :
    OrdMap.get "supersedes" (OrdMap.ofList utf8 (forgedUnderstandingEntries d cycle)) =
      if d.supersedesHashes.isEmpty then none
      else some (.array (d.supersedesHashes.map hashValue)) := by
  rw [get_mapOf]
  unfold forgedUnderstandingEntries entryIf
  cases d.value <;> cases d.confidence <;> cases d.supersedesHashes.isEmpty <;>
    simp [OrdMap.get_cons]

/-- A plate names what its deposit said that it supersedes. -/
theorem supersedes_deposit {d : Deposit} {n : DagNode} {cycle : UInt64}
    (ht : startsWith forgedUnderstandingPrefix n.nodeType)
    (hc : n.content = encodeForgedUnderstanding d cycle) (hmem : n.content.length ≤ isizeMax) :
    supersedes n = d.supersedesHashes := by
  rw [encodeForgedUnderstanding] at hc
  rw [supersedes, if_pos ht, hc, decodeMap?_cbEncode (hc ▸ hmem) forgedUnderstandingEntries_wf,
    Option.bind_some, get_supersedes]
  cases hs : d.supersedesHashes with
  | nil => rfl
  | cons h hs => exact hashesOf_map_hashValue

/-- A deposit leaves the log alone, or adds a plate that supersedes plates of the log. -/
theorem deposit_cases {s s' : ServerState env} {request : Message}
    {r : Except SubstrateError (Option Message)}
    (h : (handleDepositForgedUnderstanding request).exec s = some (r, s')) :
    s'.nodes = s.nodes ∨
      ∃ n, s'.nodes = s.nodes ++ [n] ∧ startsWith forgedUnderstandingPrefix n.nodeType ∧
        ∀ k ∈ supersedes n,
          ∃ m ∈ s.nodes, m.hash = k ∧ startsWith forgedUnderstandingPrefix m.nodeType := by
  rw [handleDepositForgedUnderstanding, Prog.exec_get_bind] at h
  cases hd : checkDeposit s request.payload with
  | error e =>
    rw [hd] at h
    cases h
    exact .inl rfl
  | ok d =>
    rw [hd] at h
    have hnodes : s'.nodes = s.nodes ∨ s'.nodes = s.nodes ++
        [(depositInsertion s d).node env.blake3] ∧
          (depositInsertion s d).content.length ≤ isizeMax := by
      obtain ⟨ps, hps, -⟩ := absorptionParents_eq s d.sourceHashes
      rcases Prog.exec_bind_eq_some.1 h with ⟨e, hi, -⟩ | ⟨hash, t, hi, hrest⟩
      · rcases insertNode_tip_cases hi hps with ⟨e', -, hn⟩ | ⟨-, hn, hmem⟩
        · exact .inl hn
        · exact .inr ⟨hn, hmem⟩
      · rw [Prog.exec_get_bind] at hrest
        cases hrest
        rcases insertNode_tip_cases hi hps with ⟨e', -, hn⟩ | ⟨-, hn, hmem⟩
        · exact .inl hn
        · exact .inr ⟨hn, hmem⟩
    rcases hnodes with hn | ⟨hn, hmem⟩
    · exact .inl hn
    · have htype : startsWith forgedUnderstandingPrefix
          ((depositInsertion s d).node env.blake3).nodeType := startsWith_append
      refine .inr ⟨_, hn, htype, ?_⟩
      rw [supersedes_deposit htype rfl hmem]
      exact checkDeposit_supersedes hd

end Myco.Substrate
