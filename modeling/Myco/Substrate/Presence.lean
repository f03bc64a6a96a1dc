import Myco.Federation.Pull
import Myco.Prune.Present
import Myco.Reproduction.Discipline
import Myco.Substrate.Deposit
import Myco.Substrate.Ingest
import Myco.Tropism.Backfill
import Myco.Tropism.Climbing
import Myco.Tropism.Saturation

/-!
# Every event is an ancestor of the present

Whatever a substrate does from an empty log on, every node of its log is the tip or an ancestor of
the tip. A `Turn` is a handler that inserts nodes of its own, a tick, a flush, a snapshot of the
observatory, or what every other handler is made of: a record or an alarm on the tip, and a write
that leaves the log alone. The parts of a cycle are turns too, since the observatory speaks up
between them. Each of them climbs (`Turn.climbs`), so a run does, and of a log that has climbed from
nothing no rule for orphans selects anything (`events_present`).
-/

namespace Myco.Substrate

open Myco.Lib Myco.Canonical Myco.Schema Myco.Federation Myco.Prune Myco.Tropism
open Myco.Reproduction (AxisSchemaInfo FloatDifference)

variable {env : Env} {rt : Runtime}

/-! ### Handlers with parents of their own -/

theorem climbs_handleIngest {request : Message} :
    Within Climbs (handleIngestRawMaterial request : Handler env (Option Message)) := by
  refine within_bind within_get fun s => ?_
  split
  · exact within_pure
  · split
    · exact within_throw
    · exact within_throw
    · split
      · exact within_throw
      · exact climbs_insertNode_bind onTip fun _ _ => within_bind within_get fun _ => within_pure

/-- The sources of a deposit come after the tip. -/
theorem climbs_handleDeposit {request : Message} :
    Within Climbs (handleDepositForgedUnderstanding request : Handler env (Option Message)) := by
  intro s r s' h
  rw [handleDepositForgedUnderstanding, Prog.exec_get_bind] at h
  split at h
  · cases h
    exact Std.Refl.refl (r := Climbs) s
  · rename_i d hd
    obtain ⟨ps, hps, -⟩ := absorptionParents_eq s d.sourceHashes
    rcases Prog.exec_bind_eq_some.1 h with ⟨e, h1, -⟩ | ⟨hash, t, h1, h2⟩
    · exact climbs_of_insertNode h1 hps
    · cases h2
      exact climbs_of_insertNode h1 hps

theorem climbs_pull {wire : PullWire} {request : Message} : Within Climbs
    (handleFederationPullEventsFromPeer wire request : Handler env (Option Message)) :=
  extends_pull.mono fun _ _ => Extends.climbs

section

variable {b : CostBudgets} {suppressEmitForTest : Bool} {cost : CostSnapshot}

theorem lifts_dropped {α : Type} {m : Handler env α} (hm : Within Climbs m) :
    Within (Lifts Metabolism.server) (Metabolic.dropping m : Metabolic env PUnit) :=
  within_bind (lifts_zoom (fun _ _ => rfl) (within_attempt hm)) fun _ => within_pure

theorem lifts_emitAxisExhaustion {a : CostAxis} : Within (Lifts Metabolism.server)
    (emitAxisExhaustion suppressEmitForTest a : Metabolic env PUnit) := by
  refine within_bind within_get fun m => within_ite ?_ within_pure
  exact within_bind (lifts_dropped climbs_emitSubstrateEvent) fun _ => lifts_modify fun _ => rfl

theorem lifts_detectSilence {a : CostAxis} :
    Within (Lifts Metabolism.server) (detectSilence a : Metabolic env PUnit) := by
  refine within_bind within_get fun m => ?_
  split
  · exact lifts_dropped climbs_emitImmuneSporocarp
  · exact within_pure

theorem lifts_applyP11cAndEmit : Within (Lifts Metabolism.server)
    (applyP11cAndEmit b suppressEmitForTest cost : Metabolic env PUnit) := by
  have hescalate : Within (Lifts Metabolism.server)
      (escalateSaturationToP7 b : Metabolic env PUnit) :=
    within_bind within_get fun _ => within_bind (lifts_dropped climbs_emitSubstrateEvent) fun _ =>
      lifts_modify fun _ => rfl
  have hpropose : ∀ {axis : String} {rule : CompressionRule}, Within (Lifts Metabolism.server)
      (proposeCompression axis rule : Metabolic env PUnit) :=
    within_bind within_get fun _ => lifts_dropped climbs_emitSubstrateEvent
  have hrest : ∀ {newStage prevStage : SaturationStage}, Within (Lifts Metabolism.server) (do
      (b.exceededAxes cost).forM (emitAxisExhaustion suppressEmitForTest)
      (b.exceededAxes cost).forM detectSilence
      if newStage = .postEligibility ∧ prevStage ≠ .postEligibility then
        seedCompressionRuleRegistry.forM (proposeCompression (b.triggeringAxis cost)) :
      Metabolic env PUnit) :=
    within_bind (within_forM fun _ _ => lifts_emitAxisExhaustion) fun _ =>
      within_bind (within_forM fun _ _ => lifts_detectSilence) fun _ =>
      within_ite (within_forM fun _ _ => hpropose) within_pure
  refine within_bind (lifts_modify fun _ => rfl) fun _ => within_bind within_get fun m =>
    within_bind (lifts_modify fun _ => comeTo_ledger) fun _ =>
    within_bind (within_forM fun _ _ => lifts_dropped climbs_emitSubstrateEvent) fun _ =>
    within_bind within_get fun _ => ?_
  exact within_ite (within_bind hescalate fun _ => hrest) hrest

end

/-! ### A hello -/

section

variable {fl : FloatDifference rt} {o : Surroundings}

theorem climbs_dropping {α : Type} {m : Handler env α} (hm : Within Climbs m) :
    Within Climbs (dropping m : Handler env PUnit) :=
  within_bind (within_attempt hm) fun _ => within_pure

/-- The server of a machine. -/
abbrev atMachine (m : Machine env rt) : ServerState env := m.host.server

theorem lifts_onSubstrate {α : Type} {m : Handler env α} (hm : Within Climbs m) :
    Within (Lifts atMachine) (onSubstrate m : Greeting env rt α) := lifts_zoom (fun _ _ => rfl) hm

theorem lifts_saveDag {outcome : Except SubstrateError Unit} : Within (Lifts atMachine)
    (Tropism.dropping (Tropism.saveDag outcome) : Greeting env rt PUnit) := by
  refine within_bind (within_attempt ?_) fun _ => within_pure
  unfold Tropism.saveDag
  split
  · exact lifts_modify fun _ => rfl
  · exact within_throw

theorem lifts_backfillDag {w : DispatcherState rt} : Within (Lifts atMachine)
    (backfillDagFromPythonState fl o w : Greeting env rt PUnit) := by
  have hgenesis : Within (Lifts atMachine) (backfillGenesis o : Greeting env rt PUnit) := by
    refine within_bind within_get fun m => within_ite within_pure ?_
    exact within_bind (lifts_onSubstrate (climbs_dropping climbs_emitSubstrateEvent)) fun _ =>
      lifts_saveDag
  have haxis : ∀ i : AxisSchemaInfo rt, Within Climbs (backfillAxis fl i : Handler env PUnit) := by
    intro i
    refine within_bind (within_bind within_get fun s => ?_) fun _ => ?_
    · exact within_ite within_pure (climbs_dropping climbs_emitSubstrateEvent)
    · exact within_ite (climbs_dropping climbs_emitSubstrateEvent) within_pure
  refine within_bind hgenesis fun _ => ?_
  split
  · exact within_throw
  · exact within_bind (lifts_onSubstrate (within_forM fun i _ => haxis i)) fun _ => lifts_saveDag

theorem lifts_serveHello {gradientCb : Option Bytes} {request : Message} : Within (Lifts atMachine)
    (serveHello fl o gradientCb request : Greeting env rt HelloAck) := by
  have hhydrate : Within (Lifts atMachine)
      (hydrate fl o gradientCb : Greeting env rt (DispatcherState rt)) := by
    refine within_bind within_get fun m => ?_
    dsimp only
    split
    · exact within_throw
    · split
      · split
        · exact within_throw
        · exact within_pure
      · exact within_bind lifts_backfillDag fun _ => within_pure
  have hhello : Within (Lifts atMachine)
      (handleHello fl o gradientCb request : Greeting env rt HelloAck) := by
    refine within_bind within_get fun m => ?_
    split
    · exact within_throw
    · split
      · exact within_throw
      · split
        · exact within_throw
        · exact within_bind hhydrate fun _ => within_bind (lifts_modify fun _ => rfl) fun _ =>
            within_bind within_get fun _ => within_pure
  refine within_bind (within_attempt hhello) fun x => ?_
  cases x with
  | ok ack => exact within_pure
  | error e =>
    exact within_bind (lifts_onSubstrate (climbs_dropping climbs_emitImmuneSporocarp)) fun _ =>
      within_bind lifts_saveDag fun _ => within_throw

end

end Myco.Substrate

namespace Myco.Reproduction

open Myco.Lib Myco.Canonical Myco.Schema Myco.Substrate
open Myco.Tropism (Runtime)

variable {env : Env} {rt : Runtime}

/-! ### A birth -/

section

variable {o : Overrides} {fl : FloatDifference rt} {w : World rt} {request : Message}
  {childStateDir : String} {a : VerifiedSpawnAttestation}

theorem lifts_onServer {α : Type} {m : Handler env α} (hm : Within Climbs m) :
    Within (Lifts Parent.server) (onServer m : Sprouting env α) := lifts_zoom (fun _ _ => rfl) hm

theorem lifts_saveDagState :
    Within (Lifts Parent.server) (saveDagState w : Sprouting env PUnit) := by
  unfold saveDagState
  split
  · exact lifts_modify fun _ => rfl
  · exact within_throw

theorem lifts_refuse {α : Type} {r : Refusal} :
    Within (Lifts Parent.server) (refuse w r : Sprouting env α) :=
  within_bind (within_attempt (lifts_onServer climbs_emitImmuneSporocarp)) fun _ =>
    within_bind (within_attempt lifts_saveDagState) fun _ => within_throw

theorem lifts_checkLineageDepth :
    Within (Lifts Parent.server) (checkLineageDepth o w a : Sprouting env UInt64) := by
  refine within_bind within_get fun p => within_ite (within_ite ?_ lifts_refuse) within_pure
  exact within_bind (within_attempt (lifts_onServer climbs_emitSubstrateEvent)) fun _ => within_pure

theorem lifts_conceive {childDepth : UInt64} {schemas : List (AxisSchemaInfo rt)} :
    Within (Lifts Parent.server) (conceive a childDepth schemas : Sprouting env _) := by
  have hclock : Within (Lifts Parent.server) (onServer readClock : Sprouting env Int64) :=
    lifts_onServer climbs_readClock
  refine within_bind within_get fun p => ?_
  cases p.server.federation.listener with
  | none => exact within_ite within_pure (within_bind hclock fun _ => within_pure)
  | some listener =>
    exact within_bind hclock fun _ =>
      within_ite within_pure (within_bind hclock fun _ => within_pure)

theorem lifts_prepareChild :
    Within (Lifts Parent.server) (prepareChild o fl w request childStateDir : Sprouting env _) := by
  have hverify : Within (Lifts Parent.server)
      (verifySpawnCoAttestation o w request : Sprouting env _) := by
    refine within_bind within_get fun p => ?_
    split
    · exact within_pure
    · exact lifts_refuse
    · exact within_halt
  have hdir : Within (Lifts Parent.server) (prepareChildDir w childStateDir : Sprouting env _) := by
    refine within_ite within_throw (within_ite within_throw ?_)
    split
    · exact within_pure
    · exact within_throw
  have hschemas : Within (Lifts Parent.server) (queryGradientSchemas w : Sprouting env _) := by
    unfold queryGradientSchemas
    split
    · exact within_throw
    · exact within_throw
    · exact within_pure
  have hbuild : ∀ {events : List ChildEvent},
      Within (Lifts Parent.server) (buildChild events : Sprouting env _) := by
    intro events
    unfold buildChild
    split
    · exact within_halt
    · exact within_throw
    · exact within_pure
  exact within_bind hverify fun _ => within_bind lifts_checkLineageDepth fun _ =>
    within_bind (within_bind within_get fun _ => within_ite lifts_refuse within_pure) fun _ =>
    within_bind hdir fun _ => within_bind hschemas fun _ => within_bind lifts_conceive fun _ =>
    within_bind hbuild fun _ => within_pure

/-- The node of a birth is laid on the tip, and its attestation on that. -/
theorem lifts_recordBirth {childDepth childAxisCount : UInt64} : Within (Lifts Parent.server)
    (recordBirth request childStateDir a childDepth childAxisCount : Sprouting env Sprouted) := by
  intro p r p' h
  rw [recordBirth, Prog.exec_get_bind] at h
  have hspore : ∀ {c : Insertion} {x q}, c.parentHashes = p.server.tipParents →
      (onServer (insertNode "spore_emission DAG insert" c) : Sprouting env NodeHash).exec p =
        some (x, q) → Lifts Parent.server p q := by
    intro c x q hc hx
    obtain ⟨s, hs, rfl⟩ := Prog.exec_zoom_eq_some.1 hx
    exact climbs_of_insertNode hs (hc.trans (List.append_nil _).symm)
  rcases Prog.exec_bind_eq_some.1 h with ⟨e, h1, -⟩ | ⟨sporeHash, q, h1, h2⟩
  · exact hspore rfl h1
  · refine IsTrans.trans (r := Lifts Parent.server) _ _ _ (hspore rfl h1) ?_
    exact within_bind (lifts_onServer climbs_emitSubstrateEvent) (fun _ => within_pure) _ _ _ h2

theorem lifts_sproutChild :
    Within (Lifts Parent.server) (sproutChild o fl w request : Sprouting env Sprouted) := by
  have hsave : ∀ {childStateDir : String} {child : Ledger env.blake3},
      Within (Lifts Parent.server) (saveChild w childStateDir child : Sprouting env PUnit) := by
    intro childStateDir child
    unfold saveChild
    split
    · exact lifts_modify fun _ => rfl
    · exact within_throw
  refine within_bind ?_ fun _ => within_bind lifts_saveDagState fun _ => within_pure
  unfold handleSproutChild
  split
  · exact within_throw
  · exact within_bind lifts_prepareChild fun _ => within_bind hsave fun _ => lifts_recordBirth

end

end Myco.Reproduction

namespace Myco.Substrate

open Myco.Lib Myco.Canonical Myco.Schema Myco.Federation Myco.Prune Myco.Tropism

variable {env : Env} {rt : Runtime} {s s' : ServerState env}

/-! ### A life -/

/-- One thing that a substrate does. The other handlers, and what looks on between the parts of a
cycle, emit events, raise alarms and write what is not in the log. -/
inductive Turn (rt : Runtime) : ServerState env → ServerState env → Prop
  | request {h h' : Host env rt} {q : Request} {r : Except SubstrateError PUnit} :
      q.run.exec h = some (r, h') → Turn rt h.server h'.server
  | cycle {h h' : Host env rt} {r : Except SubstrateError (AdvanceResponse rt)} :
      handleAdvanceRequest.exec h = some (r, h') → Turn rt h.server h'.server
  | migrationStep {h h' : Host env rt} {response : AdvanceResponse rt}
      {r : Except SubstrateError PUnit} :
      (runMigrationStep response).exec h = some (r, h') → Turn rt h.server h'.server
  | flush {h h' : Host env rt} {r : Except SubstrateError PUnit} :
      flushPendingSelfDriven.exec h = some (r, h') → Turn rt h.server h'.server
  | tick {h h' : Host env rt} {selfDriven : Bool} {r : Except SubstrateError PUnit} :
      (autonomousTick selfDriven).exec h = some (r, h') → Turn rt h.server h'.server
  | saturation {m m' : Metabolism env} {b : CostBudgets} {suppressEmitForTest : Bool}
      {cost : CostSnapshot} {r : Except SubstrateError PUnit} :
      (applyP11cAndEmit b suppressEmitForTest cost).exec m = some (r, m') →
      Turn rt m.server m'.server
  | hello {m m' : Machine env rt} {fl : Reproduction.FloatDifference rt} {o : Surroundings}
      {gradientCb : Option Bytes} {request : Message} {r : Except SubstrateError HelloAck} :
      (serveHello fl o gradientCb request).exec m = some (r, m') →
      Turn rt m.host.server m'.host.server
  | ingest {s s' : ServerState env} {request : Message}
      {r : Except SubstrateError (Option Message)} :
      (handleIngestRawMaterial request).exec s = some (r, s') → Turn rt s s'
  | deposit {s s' : ServerState env} {request : Message}
      {r : Except SubstrateError (Option Message)} :
      (handleDepositForgedUnderstanding request).exec s = some (r, s') → Turn rt s s'
  | pull {s s' : ServerState env} {wire : PullWire} {request : Message}
      {r : Except SubstrateError (Option Message)} :
      (handleFederationPullEventsFromPeer wire request).exec s = some (r, s') → Turn rt s s'
  | sprout {p p' : Reproduction.Parent env} {o : Reproduction.Overrides}
      {fl : Reproduction.FloatDifference rt} {w : Reproduction.World rt} {request : Message}
      {r : Except SubstrateError Reproduction.Sprouted} :
      (Reproduction.sproutChild o fl w request).exec p = some (r, p') → Turn rt p.server p'.server
  | event {s s' : ServerState env} {nodeType : String} {content : Bytes}
      {r : Except SubstrateError NodeHash} :
      (emitSubstrateEvent nodeType content).exec s = some (r, s') → Turn rt s s'
  | alarm {s s' : ServerState env} {detectorId detectorName evidence : String}
      {r : Except SubstrateError NodeHash} :
      (emitImmuneSporocarp detectorId detectorName evidence).exec s = some (r, s') → Turn rt s s'
  | write {s s' : ServerState env} : s'.ledger = s.ledger → Turn rt s s'

theorem Turn.climbs (h : Turn rt s s') : Climbs s s' := by
  cases h with
  | request he => exact lifts_request _ _ _ he
  | cycle he => exact lifts_handleAdvanceRequest _ _ _ he
  | migrationStep he => exact lifts_runMigrationStep _ _ _ he
  | flush he => exact lifts_flush _ _ _ he
  | tick he => exact lifts_autonomousTick _ _ _ he
  | saturation he => exact lifts_applyP11cAndEmit _ _ _ he
  | hello he => exact lifts_serveHello _ _ _ he
  | ingest he => exact climbs_handleIngest _ _ _ he
  | deposit he => exact climbs_handleDeposit _ _ _ he
  | pull he => exact climbs_pull _ _ _ he
  | sprout he => exact Reproduction.lifts_sproutChild _ _ _ he
  | event he => exact climbs_emitSubstrateEvent _ _ _ he
  | alarm he => exact climbs_emitImmuneSporocarp _ _ _ he
  | write hl => exact .of_ledger_eq hl

abbrev Life (rt : Runtime) : ServerState env → ServerState env → Prop :=
  Relation.ReflTransGen (Turn rt)

theorem Life.climbs (h : Life rt s s') : Climbs s s' := by
  induction h with
  | refl => exact Std.Refl.refl s
  | tail _ ht ih => exact IsTrans.trans _ _ _ ih ht.climbs

/-- In a life that began with an empty log every node is the tip or an ancestor of the tip, so
neither rule for orphans ever selects anything, and the check for silent deaths passes. -/
theorem events_present (hs : s.nodes = []) (h : Life rt s s') :
    (∀ n ∈ s'.nodes, Present s'.ledger n) ∧
    (∀ t, detectOrphanPastGrace s'.ledger.dag (.forDag s'.ledger.dag) t = [] ∧
      detectUnreachableFromLiveRoots s'.ledger.dag (.forDag s'.ledger.dag) t = []) ∧
    (checkSilentInternalMortality s').passed = true := by
  have hgrown : Grows Linked [] s'.nodes := hs ▸ h.climbs
  have hpresent := present_of_linked hgrown
  exact ⟨hpresent, fun t => ⟨detectOrphan_eq_nil hpresent rfl, detectUnreachable_eq_nil hpresent⟩,
    checkSilentInternalMortality_passed hpresent⟩

/-- Two events after one another. -/
theorem events_present_two : ∃ s : ServerState smallEnv, s.nodes.length = 2 ∧
    (∀ n ∈ s.nodes, Present s.ledger n) ∧
    (∀ t, detectOrphanPastGrace s.ledger.dag (.forDag s.ledger.dag) t = [] ∧
      detectUnreachableFromLiveRoots s.ledger.dag (.forDag s.ledger.dag) t = []) ∧
    (checkSilentInternalMortality s).passed = true := by
  obtain ⟨r, t, h1, r', u, h2, hu⟩ : ∃ r t, (emitSubstrateEvent "federation_listener_opened" [1] :
      Handler smallEnv NodeHash).exec (stateOf smallEnv []) = some (r, t) ∧
      ∃ r' u, (emitSubstrateEvent "federation_listener_closed" [2]).exec t = some (r', u) ∧
        u.nodes.length = 2 := ⟨_, _, rfl, _, _, rfl, rfl⟩
  have hlife : Life wholeNumbers (stateOf smallEnv []) u :=
    .tail (.tail .refl (.event h1)) (.event h2)
  exact ⟨u, hu, events_present rfl hlife⟩

end Myco.Substrate
