import Myco.Federation.Peers
import Myco.Lib.Within
import Myco.Schema.Ledger
import Myco.Substrate.Snapshot

/-!
# The running substrate

`ServerState` of `substrate/src/server/mod.rs`, as far as the handlers modelled here read and
write it, and the two functions through which they append to the DAG: `emitSubstrateEvent` and
`emitImmuneSporocarp`.

A handler is a `Prog`: `?` is its `bind`, `let _ =` is `attempt`, and what it wrote stays written
when it fails. A process that needs a `Vec` longer than `isize::MAX` bytes stops.

`Live` is the part of the state that the event log determines. A step is `Quiet` when all it
appends are records, events that neither replaying nor absorption looks at, and `Live` stays as it
is; `quiet_insert` makes every emission of a record a quiet step.
-/

namespace Myco.Substrate

open Myco.Lib Myco.Canonical Myco.Schema Myco.Federation

/-! ### What comes from outside -/

structure Env where
  blake3 : Bytes → NodeHash
  signatures : Signatures
  /-- the wall clock, one reading after the other -/
  clock : Nat → Int64
  /-- `Display` of a `DagError` -/
  dagErrorText : DagError → String
  /-- `Display` of a `CanonicalBytesError` -/
  canonicalErrorText : CanonicalBytesError → String
  /-- `Debug` of a string -/
  debugText : String → String

structure Message where
  messageType : String
  requestId : UInt64
  payload : List (String × Value)

inductive SubstrateError where
  | bridge (what : String)
  | protocol (what : String)
  | io (what : String)
  | handshake (what : String)

def SubstrateError.text : SubstrateError → String
  | .bridge what => s!"substrate bridge: {what}"
  | .protocol what => s!"substrate protocol: {what}"
  | .io what => s!"substrate I/O: {what}"
  | .handshake what => s!"substrate handshake: {what}"

/-! ### Machine arithmetic -/

def saturatingAdd (a b : UInt64) : UInt64 :=
  if a.toNat + b.toNat < 2 ^ 64 then a + b else UInt64.ofNat (2 ^ 64 - 1)

def saturatingSub (a b : UInt64) : UInt64 := if b ≤ a then a - b else 0

theorem saturatingAdd_toNat (a b : UInt64) :
    (saturatingAdd a b).toNat = min (a.toNat + b.toNat) (2 ^ 64 - 1) := by
  have ha := a.toNat_lt
  have hb := b.toNat_lt
  unfold saturatingAdd
  split
  · rename_i h
    rw [UInt64.toNat_add, Nat.mod_eq_of_lt h]
    omega
  · rw [UInt64.toNat_ofNat', Nat.mod_eq_of_lt (by omega)]
    omega

theorem saturatingSub_toNat (a b : UInt64) :
    (saturatingSub a b).toNat = a.toNat - b.toNat := by
  unfold saturatingSub
  split
  · rename_i h
    exact UInt64.toNat_sub_of_le _ _ h
  · rename_i h
    rw [UInt64.le_iff_toNat_le] at h
    show 0 = _
    omega

/-- `i64::saturating_sub`. -/
def saturatingSubI64 (a b : Int64) : Int64 :=
  Int64.ofInt (max (-2 ^ 63) (min (2 ^ 63 - 1) (a.toInt - b.toInt)))

/-! ### The state -/

inductive MigrationPhase where
  | apply
  | validating
  | commit
  | rollback
deriving DecidableEq

structure CandidateState where
  schemaDiffCanonicalBytes : Bytes
  opName : String
  startedAtCycle : UInt64
  dualValidationWindowCycles : UInt64
  startedAtUnixNs : Int64
  phase : MigrationPhase
deriving DecidableEq

inductive CultivationState where
  | normal
  | legacy
  | orphaned
  | archived
  | recovered
deriving DecidableEq

inductive SaturationStage where
  | normal
  | preEligibility
  | postEligibility
  | saturated
deriving DecidableEq

def SaturationStage.asStr : SaturationStage → String
  | .normal => "normal"
  | .preEligibility => "pre_eligibility"
  | .postEligibility => "post_eligibility"
  | .saturated => "saturated"

/-- When a detector last emitted, the node it emitted, and how often it was suppressed since. -/
structure ImmuneEmission where
  at_ : Int64
  hash : NodeHash
  suppressed : UInt64

structure OwnerObjective where
  objectiveId : String
  declaredAtCycle : UInt64
  /-- the weights by their prefixes, each as its decimal text -/
  weights : List (String × String)

structure ServerState (env : Env) where
  ledger : Ledger env.blake3
  substrateId : Option Hash32
  genesisTimeUnixNs : Option Int64
  generationDepth : UInt64
  cycleCounter : UInt64
  lastAbsorbedCycle : Option UInt64
  migrationCandidate : Option CandidateState
  pendingSelfDrivenNoopCycles : UInt64
  axisRegisterCount : UInt64
  handshakeComplete : Bool
  federation : FederationState
  revokedFederationPeers : List Hash32
  substrateSigningSeed : Hash32
  successorChain : List SuccessorEntry
  successionConfig : Option SuccessionConfig
  cultivationState : CultivationState
  pythonWorkerDeathLogged : Bool
  immuneEmissionState : List (String × ImmuneEmission)
  saturationStage : SaturationStage
  consecutiveBudgetExhaustedCycles : UInt64
  lastBudgetExhaustedPerAxis : List (String × UInt64)
  backlogCount : UInt32
  lastHoardingIndicatorEmittedAtCycle : Option UInt64
  lastCultivarInitiatedIngestionRequestAtCycle : Option UInt64
  lastIngestionStarvationEmittedAtCycle : Option UInt64
  lastMigrationWindowExceededEmittedAtCycle : Option UInt64
  backupEncryptionStatus : Option String
  ownerObjective : Option OwnerObjective
  /-- readings taken from the clock -/
  readings : Nat

abbrev Handler (env : Env) := Prog (ServerState env) SubstrateError

variable {env : Env}

namespace ServerState

abbrev nodes (s : ServerState env) : List DagNode := s.ledger.nodes

/-- `match state.dag.tip() { Some(t) => vec![t], None => Vec::new() }` -/
def tipParents (s : ServerState env) : List NodeHash := s.ledger.tip.toList

def nodeCount (s : ServerState env) : UInt64 := UInt64.ofNat s.ledger.dag.insertionOrder.length

/-- `state.immune_emission_state.insert(detector_id, ..)` -/
def recordImmune (detectorId : String) (e : ImmuneEmission) (s : ServerState env) :
    ServerState env :=
  { s with immuneEmissionState := OrdMap.insert utf8 detectorId e s.immuneEmissionState }

end ServerState

/-! ### Cultivation -/

def betRetiredPrefix : String := "bet_retired:"
def cultivationRecoveredPrefix : String := "cultivation_recovered:"
def cultivationOrphanedPrefix : String := "cultivation_orphaned:"
def successionCompletedPrefix : String := "succession_completed:"

/-- One turn of the loop of `current_cultivation_state`. -/
def cultivationEvent (current : CultivationState) (node : DagNode) : CultivationState :=
  if startsWith betRetiredPrefix node.nodeType then .archived
  else if current = .archived then .archived
  else if startsWith cultivationRecoveredPrefix node.nodeType then .recovered
  else if startsWith cultivationOrphanedPrefix node.nodeType then .orphaned
  else if startsWith successionCompletedPrefix node.nodeType then .normal
  else current

def currentCultivationState (s : ServerState env) : CultivationState :=
  s.nodes.foldl cultivationEvent .normal

def isCultivationFamilyNodeType (nodeType : String) : Bool :=
  startsWith betRetiredPrefix nodeType || startsWith cultivationRecoveredPrefix nodeType ||
    startsWith cultivationOrphanedPrefix nodeType || startsWith successionCompletedPrefix nodeType

/-- Keeps the memoized state in step with the event that was just appended. -/
def ServerState.refreshCultivation (nodeType : String) (s : ServerState env) : ServerState env :=
  if isCultivationFamilyNodeType nodeType then
    { s with cultivationState := currentCultivationState s }
  else s

def isArchived (s : ServerState env) : Bool := s.cultivationState = .archived

/-! ### Appending to the DAG -/

/-- What the encoder answers; it answers every value. -/
def cbEncode (entries : List (String × Value)) : Bytes := contentOf (mapOf entries)

def hashValue (h : Hash32) : Value := .bytes h.bytes

/-- The `Vec`s that a call needs are ones that there can be. -/
def Allocates (l : Ledger env.blake3) (c : Insertion) : Prop :=
  c.content.length ≤ isizeMax ∧ 32 * (l.dag.insertionOrder.length + 1) ≤ isizeMax

instance (l : Ledger env.blake3) (c : Insertion) : Decidable (Allocates l c) :=
  inferInstanceAs (Decidable (_ ∧ _))

/-- `state.dag.insert_node(..).map_err(|e| SubstrateError::Protocol(format!("{what}: {e}")))?` -/
def insertNode (what : String) (c : Insertion) : Handler env NodeHash := do
  let s ← get
  if Allocates s.ledger c then
    modify fun s => { s with ledger := s.ledger.push c }
    match s.ledger.answer c with
    | .ok hash => pure hash
    | .error e => throw (.protocol s!"{what}: {env.dagErrorText e}")
  else Prog.halt

def readClock : Handler env Int64 := do
  let s ← get
  modify fun s => { s with readings := s.readings + 1 }
  pure (env.clock s.readings)

def emitSubstrateEvent (nodeType : String) (content : Bytes) : Handler env NodeHash := do
  let s ← get
  let hash ← insertNode "substrate event DAG insert"
    ⟨s.tipParents, nodeType, s.cycleCounter, content⟩
  modify (·.refreshCultivation nodeType)
  pure hash

def immunePrefix : String := "immune:"

def immuneEmissionRateLimitNs : Int64 := 1000000000

/-- An emission that the rate limit lets through. -/
def emitFresh (detectorId detectorName evidence : String) (timestampUnixNs : Int64)
    (suppressedSince : UInt64) : Handler env NodeHash := do
  let s ← get
  let content := cbEncode ([("detector_id", .string detectorId),
    ("detector_name", .string detectorName), ("evidence", .string evidence),
    ("timestamp_unix_ns", .timestamp timestampUnixNs)] ++
    entryIf "suppressed_since_last_emission" .uint
      (if suppressedSince > 0 then some suppressedSince else none))
  let hash ← insertNode "immune DAG insert"
    ⟨s.tipParents, immunePrefix ++ detectorId, s.cycleCounter, content⟩
  modify (·.recordImmune detectorId ⟨timestampUnixNs, hash, 0⟩)
  pure hash

def emitImmuneSporocarp (detectorId detectorName evidence : String) : Handler env NodeHash := do
  let timestampUnixNs ← readClock
  let s ← get
  match OrdMap.get detectorId s.immuneEmissionState with
  | none => emitFresh detectorId detectorName evidence timestampUnixNs 0
  | some prior =>
    if saturatingSubI64 timestampUnixNs prior.at_ < immuneEmissionRateLimitNs then
      modify (·.recordImmune detectorId
        { prior with suppressed := saturatingAdd prior.suppressed 1 })
      pure prior.hash
    else emitFresh detectorId detectorName evidence timestampUnixNs prior.suppressed

/-! ### What the log determines -/

structure Live where
  substrateId : Option Hash32
  cycleCounter : UInt64
  lastAbsorbedCycle : Option UInt64
  /-- its operation, diff, start and window -/
  migrationCandidate : Option (String × Bytes × UInt64 × UInt64)
deriving DecidableEq

def CandidateState.live (c : CandidateState) : String × Bytes × UInt64 × UInt64 :=
  (c.opName, c.schemaDiffCanonicalBytes, c.startedAtCycle, c.dualValidationWindowCycles)

def MigrationCandidate.live (c : MigrationCandidate) : String × Bytes × UInt64 × UInt64 :=
  (c.opName, c.schemaDiff, c.startedAtCycle, c.window)

def ServerState.live (s : ServerState env) : Live :=
  ⟨s.substrateId, s.cycleCounter, s.lastAbsorbedCycle, s.migrationCandidate.map CandidateState.live⟩

def DerivedState.live (d : DerivedState) : Live :=
  ⟨d.substrateId, d.cycleCounter, d.lastAbsorbedCycle,
    d.migrationCandidate.map MigrationCandidate.live⟩

/-- What the log does not say and batching asks for, and the candidate in full. -/
def ServerState.unlogged (s : ServerState env) : UInt64 × UInt64 × Bool × Option CandidateState :=
  (s.pendingSelfDrivenNoopCycles, s.axisRegisterCount, s.federation.active, s.migrationCandidate)

def rawMaterialPrefix : String := "raw_material:"

def axisRegisteredPrefix : String := "axis_registered:"

/-- Events of this type are neither replayed nor absorbed, nor do they register an axis. -/
structure IsRecord (nodeType : String) : Prop where
  pure : family nodeType = .pureRecord
  notRaw : ¬ startsWith rawMaterialPrefix nodeType
  notAxis : ¬ startsWith axisRegisteredPrefix nodeType

theorem isRecord_of_startsWith {p nodeType : String} (h : startsWith p nodeType)
    (hp : ∀ q ∈ rawMaterialPrefix :: axisRegisteredPrefix :: dispatchTexts, Apart p q) :
    IsRecord nodeType := by
  simp only [List.forall_mem_cons (p := fun q => Apart p q)] at hp
  exact ⟨family_pureRecord h hp.2.2, not_startsWith h hp.1, not_startsWith h hp.2.1⟩

namespace ServerState

variable {nodeType : String} (s : ServerState env)

theorem refreshCultivation_ledger : (s.refreshCultivation nodeType).ledger = s.ledger := by
  unfold refreshCultivation
  split <;> rfl

theorem refreshCultivation_live : (s.refreshCultivation nodeType).live = s.live := by
  unfold refreshCultivation
  split <;> rfl

theorem refreshCultivation_unlogged :
    (s.refreshCultivation nodeType).unlogged = s.unlogged := by
  unfold refreshCultivation
  split <;> rfl

end ServerState

/-- Two of the messages hashed so far have collided. -/
def Collided (s : ServerState env) : Prop := ¬ s.ledger.Sound

/-- There is room for the nodes there are. -/
def Fits (s : ServerState env) : Prop := 32 * s.nodes.length ≤ isizeMax

/-- Nothing but records has been appended, and the log determines what it did. -/
structure Quiet (s s' : ServerState env) : Prop where
  nodes : ∃ es, s'.nodes = s.nodes ++ es ∧ ∀ e ∈ es, IsRecord e.nodeType
  live : s'.live = s.live
  unlogged : s'.unlogged = s.unlogged
  fits : Fits s → Fits s'

instance : IsPreorder (ServerState env) Quiet where
  refl s := ⟨⟨[], by simp⟩, rfl, rfl, id⟩
  trans s t u h h' := by
    obtain ⟨es, h1, h2⟩ := h.nodes
    obtain ⟨fs, h3, h4⟩ := h'.nodes
    refine ⟨⟨es ++ fs, by rw [h3, h1, List.append_assoc], ?_⟩, h'.live.trans h.live,
      h'.unlogged.trans h.unlogged, fun hf => h'.fits (h.fits hf)⟩
    exact fun e he => (List.mem_append.1 he).elim (h2 e) (h4 e)

/-- `P`, barring a collision. -/
abbrev Barring (P : ServerState env → ServerState env → Prop) := Unless Collided P

theorem Quiet.of_eq {s s' : ServerState env} (hl : s'.ledger = s.ledger) (hlive : s'.live = s.live)
    (hu : s'.unlogged = s.unlogged) : Quiet s s' := by
  have hn : s'.nodes = s.nodes := congrArg Ledger.nodes hl
  exact ⟨⟨[], by simp [hn]⟩, hlive, hu, fun hf => by rwa [Fits, hn]⟩

theorem Barring.of_ledger_eq {P : ServerState env → ServerState env → Prop} {s s' : ServerState env}
    (hl : s'.ledger = s.ledger) (h : P s s') : Barring P s s' :=
  ⟨fun hb => by rwa [Collided, hl], fun _ => h⟩

theorem quiet_modify {g : ServerState env → ServerState env} (hl : ∀ s, (g s).ledger = s.ledger)
    (hlive : ∀ s, (g s).live = s.live)
    (hu : ∀ s, (g s).unlogged = s.unlogged) :
    Within (Barring Quiet) (modify g : Handler env PUnit) :=
  within_modify fun s => .of_ledger_eq (hl s) (.of_eq (hl s) (hlive s) (hu s))

theorem exec_insertNode {what : String} {c : Insertion} {s : ServerState env} :
    (insertNode what c).exec s =
      if Allocates s.ledger c then
        some ((s.ledger.answer c).mapError
          (fun e => .protocol s!"{what}: {env.dagErrorText e}"), { s with ledger := s.ledger.push c })
      else none := by
  rw [insertNode, Prog.exec_get_bind]
  split
  · rw [Prog.exec_modify_bind]
    cases s.ledger.answer c <;> rfl
  · rfl

theorem length_insertionOrder (l : Ledger env.blake3) :
    l.dag.insertionOrder.length = l.nodes.length := by
  rw [l.dag_eq, Dag.ofNodes, List.length_map]

/-- The node that a call appends. -/
structure Appends (c : Insertion) (s s' : ServerState env) : Prop where
  nodes : s'.nodes = s.nodes ++ [c.node env.blake3]
  live : s'.live = s.live
  unlogged : s'.unlogged = s.unlogged
  content : c.content.length ≤ isizeMax
  fits : Fits s'

theorem Appends.of_eq {c : Insertion} {s t u : ServerState env} (h : Appends c s t)
    (hl : u.ledger = t.ledger) (hlive : u.live = t.live)
    (hu : u.unlogged = t.unlogged) : Appends c s u := by
  have hn : u.nodes = t.nodes := congrArg Ledger.nodes hl
  exact ⟨hn.trans h.nodes, hlive.trans h.live, hu.trans h.unlogged, h.content, by
    rw [Fits, hn]
    exact h.fits⟩

/-- A call whose first parent is the tip fails or appends its node. -/
theorem insertNode_tip_cases {what : String} {c : Insertion} {ps : List NodeHash}
    {s s' : ServerState env} {r : Except SubstrateError NodeHash}
    (h : (insertNode what c).exec s = some (r, s')) (hp : c.parentHashes = s.tipParents ++ ps) :
    (∃ e, r = .error e ∧ s'.nodes = s.nodes) ∨
    (r = .ok (c.node env.blake3).hash ∧ s'.nodes = s.nodes ++ [c.node env.blake3] ∧
      c.content.length ≤ isizeMax) := by
  rw [exec_insertNode] at h
  split at h
  · rename_i halloc
    cases h
    rcases Ledger.push_tip_cases hp with ⟨e, -, ha, hn⟩ | ⟨ha, hn⟩
    · exact .inl ⟨_, by rw [ha]; rfl, hn⟩
    · exact .inr ⟨by rw [ha]; rfl, hn, halloc.1⟩
  · cases h

/-- A call whose first parent is the tip answers with the node it appends. -/
theorem insertNode_tip {what : String} {c : Insertion} {ps : List NodeHash}
    {s s' : ServerState env} {r : Except SubstrateError NodeHash}
    (h : (insertNode what c).exec s = some (r, s')) (ht : c.nodeType ≠ "")
    (hp : c.parentHashes = s.tipParents ++ ps) (hps : ∀ p ∈ ps, p ∈ s.nodes.map DagNode.hash) :
    Barring (fun s s' => r = .ok (c.node env.blake3).hash ∧ Appends c s s') s s' := by
  rw [exec_insertNode] at h
  split at h
  · rename_i halloc
    cases h
    refine ⟨fun hb hs => hb hs.of_push, fun hs => ?_⟩
    obtain ⟨h1, h2⟩ := Ledger.push_tip (not_not.1 hs) ht hp hps
    refine ⟨by rw [h1]; rfl, h2, rfl, rfl, halloc.1, ?_⟩
    have := halloc.2
    rw [length_insertionOrder] at this
    simpa [Fits, ServerState.nodes, h2] using this
  · cases h

/-! ### Quiet programs -/

theorem quiet_insertNode {what : String} {c : Insertion} (h : IsRecord c.nodeType) :
    Within (Barring Quiet) (insertNode what c : Handler env NodeHash) := by
  intro s r s' he
  rw [exec_insertNode] at he
  split at he
  · rename_i halloc
    cases he
    refine ⟨fun hb hs => hb hs.of_push, fun _ => ?_⟩
    have hroom := halloc.2
    rw [length_insertionOrder] at hroom
    rcases s.ledger.push_cases c with ⟨-, -, -, hn⟩ | ⟨-, -, -, -, -, -, hn⟩ | ⟨-, hn⟩
    · exact ⟨⟨[], by simp [ServerState.nodes, hn]⟩, rfl, rfl, fun hf => by
        simpa [Fits, ServerState.nodes, hn] using hf⟩
    · exact ⟨⟨[], by simp [ServerState.nodes, hn]⟩, rfl, rfl, fun hf => by
        simpa [Fits, ServerState.nodes, hn] using hf⟩
    · refine ⟨⟨[c.node env.blake3], hn, ?_⟩, rfl, rfl, fun _ => ?_⟩
      · intro e he
        cases List.mem_singleton.1 he
        exact h
      · simpa [Fits, ServerState.nodes, hn] using hroom
  · cases he

theorem quiet_readClock : Within (Barring Quiet) (readClock : Handler env Int64) :=
  within_bind within_get fun _ =>
    within_bind (quiet_modify (fun _ => rfl) (fun _ => rfl) fun _ => rfl) fun _ => within_pure

theorem isRecord_immune {detectorId : String} : IsRecord (immunePrefix ++ detectorId) :=
  isRecord_of_startsWith startsWith_append (by decide)

theorem quiet_emitFresh {detectorId detectorName evidence : String} {t : Int64} {n : UInt64} :
    Within (Barring Quiet) (emitFresh detectorId detectorName evidence t n :
      Handler env NodeHash) :=
  within_bind within_get fun _ => within_bind (quiet_insertNode isRecord_immune) fun _ =>
    within_bind (quiet_modify (fun _ => rfl) (fun _ => rfl) fun _ => rfl) fun _ => within_pure

theorem quiet_emitImmuneSporocarp {detectorId detectorName evidence : String} :
    Within (Barring Quiet) (emitImmuneSporocarp detectorId detectorName evidence :
      Handler env NodeHash) := by
  refine within_bind quiet_readClock fun _ => within_bind within_get fun s => ?_
  cases OrdMap.get detectorId s.immuneEmissionState with
  | none => exact quiet_emitFresh
  | some prior =>
    dsimp only
    split
    · exact within_bind (quiet_modify (fun _ => rfl) (fun _ => rfl) fun _ => rfl) fun _ => within_pure
    · exact quiet_emitFresh

/-- What `let _ = emit_substrate_event(..)` appends. -/
theorem emitSubstrateEvent_tip {nodeType : String} {content : Bytes} {s s' : ServerState env}
    {r : Except SubstrateError NodeHash} (ht : nodeType ≠ "")
    (h : (emitSubstrateEvent nodeType content).exec s = some (r, s')) :
    Barring (Appends ⟨s.tipParents, nodeType, s.cycleCounter, content⟩) s s' := by
  rw [emitSubstrateEvent, Prog.exec_get_bind] at h
  rcases Prog.exec_bind_eq_some.1 h with ⟨e, h1, -⟩ | ⟨hash, t, h1, h2⟩
  · exact (insertNode_tip h1 ht (List.append_nil _).symm (by simp)).imp fun ⟨_, h⟩ => h
  · cases h2
    refine (insertNode_tip h1 ht (List.append_nil _).symm (by simp)).trans
      (Barring.of_ledger_eq (P := fun _ _ => True) t.refreshCultivation_ledger trivial)
      fun ⟨_, h⟩ _ => ?_
    exact h.of_eq t.refreshCultivation_ledger t.refreshCultivation_live
      t.refreshCultivation_unlogged

/-! ### A server over given calls -/

/-- Hashes by length, knows no signature but the empty one, and its clock stands still. -/
def smallEnv : Env where
  blake3 := lengthHash
  signatures := ⟨id, fun _ _ => ⟨.replicate 64 0, rfl⟩, fun _ s _ => s.bytes = .replicate 64 0,
    fun _ _ _ => ""⟩
  clock _ := 0
  dagErrorText _ := ""
  canonicalErrorText _ := ""
  debugText := id

def signatureNo (n : UInt8) : Signature := ⟨n :: .replicate 63 0, rfl⟩

/-- Has signed these messages and no other; a signature says which one. -/
def signingEnv (signed : List Bytes) : Env :=
  { smallEnv with
    signatures := ⟨id, fun _ m => signatureNo (UInt8.ofNat (signed.idxOf m)),
      fun _ s m => signed[(s.bytes.headD 0).toNat]? = some m, fun _ _ _ => ""⟩ }

/-- A hash of 64 bits, padded. -/
def foldHash (b : Bytes) : Hash32 where
  bytes := u64Be (UInt64.ofNat (b.foldl (fun h x => (31 * h + x.toNat + 7) % 2 ^ 61) 0)) ++
    .replicate 24 0
  length_eq := by simp [u64Be_length]

/-- These keys have signed these messages, and none other; a signature says which one. -/
def keyedEnv (signed : List (Hash32 × Bytes)) : Env :=
  { smallEnv with
    blake3 := foldHash
    signatures := ⟨id, fun seed m => signatureNo (UInt8.ofNat (signed.idxOf (seed, m))),
      fun pk s m => signed[(s.bytes.headD 0).toNat]? = some (pk, m), fun _ _ _ => ""⟩ }

/-- A server that has only just loaded its log. -/
def stateOf (env : Env) (calls : List Insertion) : ServerState env where
  ledger := ⟨calls, insertAll env.blake3 calls, rfl⟩
  substrateId := none
  genesisTimeUnixNs := none
  generationDepth := 0
  cycleCounter := 0
  lastAbsorbedCycle := none
  migrationCandidate := none
  pendingSelfDrivenNoopCycles := 0
  axisRegisterCount := 0
  handshakeComplete := false
  federation := .new false
  revokedFederationPeers := []
  substrateSigningSeed := .replicate 0
  successorChain := []
  successionConfig := none
  cultivationState := .normal
  pythonWorkerDeathLogged := false
  immuneEmissionState := []
  saturationStage := .normal
  consecutiveBudgetExhaustedCycles := 0
  lastBudgetExhaustedPerAxis := []
  backlogCount := 0
  lastHoardingIndicatorEmittedAtCycle := none
  lastCultivarInitiatedIngestionRequestAtCycle := none
  lastIngestionStarvationEmittedAtCycle := none
  lastMigrationWindowExceededEmittedAtCycle := none
  backupEncryptionStatus := none
  ownerObjective := none
  readings := 0

end Myco.Substrate
