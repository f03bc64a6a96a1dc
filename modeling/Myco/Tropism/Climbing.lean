import Myco.Substrate.Laying
import Myco.Tropism.Run

/-!
# What a cycle, a migration and a request lay on the tip

`Climbs`: all that happens to the log is that nodes are laid on it, each with the tip of its time
for its first parent. Every place that calls `insert_node` on the log of the substrate chooses its
parents so: the tip alone, the tip and what the node is about, or, for the proposal that hangs from
a sporocarp, the sporocarp, which by then is the tip. A call that finds its hash taken fails, so
none succeeds without moving the tip.
-/

namespace Myco.Substrate

open Myco.Lib Myco.Canonical Myco.Schema

variable {env : Env} {s s' : ServerState env}

/-! ### Climbing -/

def Climbs (s s' : ServerState env) : Prop := Grows Linked s.nodes s'.nodes

instance : IsPreorder (ServerState env) Climbs where
  refl _ := .refl
  trans _ _ _ h h' := h.trans h'

theorem Climbs.of_ledger_eq (h : s'.ledger = s.ledger) : Climbs s s' := by
  have hn : s'.nodes = s.nodes := congrArg Ledger.nodes h
  rw [Climbs, hn]
  exact .refl

theorem Lays.climbs {P : UInt64 → DagNode → Prop} (h : Lays P s s') : Climbs s s' :=
  h.log.mono fun _ _ hn => hn.1

theorem Extends.climbs {kind : String → Prop} (h : Extends kind s s') : Climbs s s' :=
  h.log.mono fun _ _ hn => ⟨[], by rw [hn.parents, List.append_nil]⟩

theorem climbs_modify {g : ServerState env → ServerState env} (h : ∀ s, (g s).ledger = s.ledger) :
    Within Climbs (modify g : Handler env PUnit) :=
  within_modify fun s => .of_ledger_eq (h s)

theorem climbs_readClock : Within Climbs (readClock : Handler env Int64) :=
  within_bind within_get fun _ => within_bind (climbs_modify fun _ => rfl) fun _ => within_pure

/-- One call of `insert_node` with the tip for the first parent. -/
theorem climbs_of_insertNode {what : String} {c : Insertion} {ps : List NodeHash}
    {r : Except SubstrateError NodeHash} (h : (insertNode what c).exec s = some (r, s'))
    (hp : c.parentHashes = s.tipParents ++ ps) : Climbs s s' := by
  rcases insertNode_tip_cases h hp with ⟨e, -, hn⟩ | ⟨-, hn, -⟩
  · rw [Climbs, hn]
    exact .refl
  · rw [Climbs, hn]
    refine .snoc .refl ⟨ps, ?_⟩
    rw [← tipParents_eq]
    exact hp

theorem climbs_insertNode {what : String} {c : ServerState env → Insertion}
    (hp : ∀ s, ∃ ps, (c s).parentHashes = s.tipParents ++ ps) :
    Within Climbs (get >>= fun s => insertNode what (c s) : Handler env NodeHash) := by
  intro s r s' h
  rw [Prog.exec_get_bind] at h
  obtain ⟨ps, hps⟩ := hp s
  exact climbs_of_insertNode h hps

/-- The same, with what comes after it, which may look at what came before. -/
theorem climbs_insertNode_bind {α : Type} {what : String} {c : ServerState env → Insertion}
    {f : ServerState env → NodeHash → Handler env α}
    (hp : ∀ s, ∃ ps, (c s).parentHashes = s.tipParents ++ ps)
    (hf : ∀ s h, Within Climbs (f s h)) :
    Within Climbs (get >>= fun s => insertNode what (c s) >>= f s) := by
  intro s r s' h
  rw [Prog.exec_get_bind] at h
  obtain ⟨ps, hps⟩ := hp s
  rcases Prog.exec_bind_eq_some.1 h with ⟨e, h1, -⟩ | ⟨hash, t, h1, h2⟩
  · exact climbs_of_insertNode h1 hps
  · exact IsTrans.trans s t s' (climbs_of_insertNode h1 hps) (hf s hash t r s' h2)

theorem onTip (s : ServerState env) : ∃ ps, s.tipParents = s.tipParents ++ ps :=
  ⟨[], (List.append_nil _).symm⟩

theorem climbs_emitSubstrateEvent {nodeType : String} {content : Bytes} :
    Within Climbs (emitSubstrateEvent nodeType content : Handler env NodeHash) :=
  (lays_emitSubstrateEvent (P := fun _ _ => True) fun _ _ _ _ _ _ => trivial).mono
    fun _ _ => Lays.climbs

theorem climbs_emitImmuneSporocarp {detectorId detectorName evidence : String} :
    Within Climbs (emitImmuneSporocarp detectorId detectorName evidence : Handler env NodeHash) :=
  lays_emitImmuneSporocarp.mono fun _ _ => Lays.climbs

theorem climbs_emitAbsorptionEvent {postCycle : UInt64} {pending : List NodeHash} :
    Within Climbs (emitAbsorptionEvent postCycle pending : Handler env (Option NodeHash)) := by
  unfold emitAbsorptionEvent
  split
  · exact within_pure
  · refine climbs_insertNode_bind (fun s => ?_) fun s _ =>
      within_bind (climbs_modify fun _ => rfl) fun _ => within_pure
    obtain ⟨ps, hps, -⟩ := absorptionParents_eq s pending
    exact ⟨ps, hps⟩

/-! ### Parts of larger states -/

/-- The substrate that is part of a state climbs. -/
def Lifts {τ : Type} (part : τ → ServerState env) (t t' : τ) : Prop := Climbs (part t) (part t')

variable {τ : Type} {part : τ → ServerState env}

instance : IsPreorder τ (Lifts part) where
  refl t := Std.Refl.refl (r := Climbs) (part t)
  trans _ _ _ h h' := IsTrans.trans (r := Climbs) _ _ _ h h'

theorem lifts_zoom {α : Type} {put : τ → ServerState env → τ} {m : Handler env α}
    (hput : ∀ t s, part (put t s) = s) (hm : Within Climbs m) :
    Within (Lifts part) (m.zoom part put : Prog τ SubstrateError α) :=
  within_zoom hm fun t s' h => by rwa [Lifts, hput]

theorem lifts_modify {g : τ → τ} (h : ∀ t, (part (g t)).ledger = (part t).ledger) :
    Within (Lifts part) (modify g : Prog τ SubstrateError PUnit) :=
  within_modify fun t => Climbs.of_ledger_eq (h t)

end Myco.Substrate

namespace Myco.Prune

open Myco.Lib Myco.Canonical Myco.Schema Myco.Substrate

variable {env : Env}

/-! ### A scan -/

theorem climbs_runPruneScan {currentCycle : UInt64} :
    Within Climbs (runPruneScan currentCycle : Handler env PruneScanReport) := by
  have hone : ∀ (rule : PruneRule) (c : PruneCandidate),
      Within Climbs (emitCandidate rule currentCycle c : Handler env NodeHash) :=
    fun _ c => climbs_insertNode fun s => tombstoneParents_eq s c.partHash
  refine within_bind within_get fun s => within_bind (within_mapM fun rule _ => ?_) fun _ =>
    within_pure
  exact within_bind within_get fun s => within_mapM fun c _ => hone rule c

end Myco.Prune

namespace Myco.Tropism

open Myco.Lib Myco.Canonical Myco.Schema Myco.Substrate Myco.Prune

variable {env : Env} {rt : Runtime}

/-! ### Cycles -/

/-- The proposal hangs from the sporocarp, which is the tip by then. -/
theorem climbs_insertSporocarp {sp : SporocarpReport rt} :
    Within Climbs (insertSporocarp sp : Handler env (NodeHash × Option NodeHash)) := by
  intro s r s' h
  rw [insertSporocarp, Prog.exec_get_bind] at h
  rcases Prog.exec_bind_eq_some.1 h with ⟨e, h1, -⟩ | ⟨dagHash, t, h1, h2⟩
  · exact climbs_of_insertNode h1 (List.append_nil _).symm
  have hfirst : Climbs s t := climbs_of_insertNode h1 (List.append_nil _).symm
  split at h2
  · have htip : t.tipParents = [dagHash] := by
      rcases insertNode_tip_cases h1 (List.append_nil _).symm with ⟨e, hr, -⟩ | ⟨hr, hn, -⟩
      · cases hr
      · cases hr
        exact tipParents_of_nodes hn
    have hp : [dagHash] = t.tipParents ++ [] := by rw [htip, List.append_nil]
    rcases Prog.exec_bind_eq_some.1 h2 with ⟨e, h3, -⟩ | ⟨proposalHash, u, h3, h4⟩
    · exact IsTrans.trans (r := Climbs) _ _ _ hfirst (climbs_of_insertNode h3 hp)
    · cases h4
      exact IsTrans.trans (r := Climbs) _ _ _ hfirst (climbs_of_insertNode h3 hp)
  · cases h2
    exact hfirst

theorem climbs_alarm {detectorId detectorName evidence : String} {α : Type} {m : Handler env α}
    (hm : Within Climbs m) : Within Climbs ((emitImmuneSporocarp detectorId detectorName
      evidence).attempt >>= fun _ => m : Handler env α) :=
  within_bind (within_attempt climbs_emitImmuneSporocarp) fun _ => hm

theorem climbs_cycleStepFailed {evidence : String} :
    Within Climbs (cycleStepFailed evidence : Handler env PUnit) := climbs_alarm within_pure

theorem climbs_pruneStep {postCycle : UInt64} :
    Within Climbs (pruneStep postCycle : Handler env (Option PruneScanReport)) := by
  have hreport : Within Climbs (pruneReport postCycle : Handler env PruneScanReport) := by
    refine within_bind (within_attempt climbs_runPruneScan) fun x => ?_
    cases x with
    | ok _ => exact within_pure
    | error _ => exact within_bind climbs_cycleStepFailed fun _ => within_pure
  have hhoarding : Within Climbs (detectHoarding postCycle : Handler env PUnit) := by
    refine within_bind within_get fun s => ?_
    split
    · exact climbs_alarm (climbs_modify fun _ => rfl)
    · exact within_pure
  unfold pruneStep
  split
  · exact within_bind hreport fun _ => within_bind hhoarding fun _ => within_pure
  · exact within_pure

theorem climbs_detectBacklog {durationMs : Nat} :
    Within Climbs (detectBacklog durationMs : Handler env PUnit) := by
  unfold detectBacklog
  split
  · refine within_bind (climbs_modify fun _ => rfl) fun _ => within_bind within_get fun s => ?_
    split
    · exact climbs_alarm within_pure
    · exact within_pure
  · exact within_pure

theorem climbs_requestIngestion {postCycle cyclesSince : UInt64} {everFed : Bool} :
    Within Climbs (requestIngestion postCycle cyclesSince everFed : Handler env PUnit) := by
  refine within_bind within_get fun s => ?_
  split
  · refine within_bind (within_attempt climbs_emitSubstrateEvent) fun x => ?_
    cases x with
    | ok _ => exact climbs_modify fun _ => rfl
    | error _ => exact within_pure
  · exact within_pure

theorem climbs_alarmStarvation {postCycle cyclesSince : UInt64} {everFed : Bool} :
    Within Climbs (alarmStarvation postCycle cyclesSince everFed : Handler env PUnit) := by
  refine within_bind within_get fun s => ?_
  split
  · refine within_bind (within_attempt climbs_emitImmuneSporocarp) fun x => ?_
    cases x with
    | ok _ => exact climbs_modify fun _ => rfl
    | error _ => exact within_pure
  · exact within_pure

theorem climbs_settleCycle {start : Int64} {postCycle : UInt64} {pending : List NodeHash}
    {breaches : List String} {report : AdvanceReport rt} : Within Climbs
      (settleCycle start postCycle pending breaches report : Handler env (AdvanceResponse rt)) :=
  within_bind (within_mapM fun _ _ => climbs_insertSporocarp) fun _ =>
    within_bind climbs_emitAbsorptionEvent fun _ => within_bind within_get fun _ =>
    within_bind climbs_pruneStep fun _ => within_bind climbs_readClock fun _ =>
    within_bind climbs_detectBacklog fun _ => within_bind (within_bind within_get fun _ =>
      within_bind climbs_requestIngestion fun _ => climbs_alarmStarvation) fun _ => within_pure

/-! ### Hosts -/

section

variable {t : MessageType} {payload : Payload} {detectorId detectorName evidence : String}
  {nodeType : String} {content : Bytes}

theorem lifts_onServer {α : Type} {m : Handler env α} (hm : Within Climbs m) :
    Within (Lifts Host.server) (onServer m : Op env rt α) := lifts_zoom (fun _ _ => rfl) hm

theorem lifts_set {g : ServerState env → ServerState env} (h : ∀ s, (g s).ledger = s.ledger) :
    Within (Lifts Host.server) (onServer (modify g) : Op env rt PUnit) :=
  lifts_onServer (climbs_modify h)

theorem lifts_immune : Within (Lifts Host.server)
    (immune detectorId detectorName evidence : Op env rt PUnit) :=
  within_bind (within_attempt (lifts_onServer climbs_emitImmuneSporocarp)) fun _ => within_pure

theorem lifts_emit :
    Within (Lifts Host.server) (emit nodeType content : Op env rt PUnit) :=
  within_bind (within_attempt (lifts_onServer climbs_emitSubstrateEvent)) fun _ => within_pure

theorem lifts_callPython :
    Within (Lifts Host.server) (callPython t payload : Op env rt (Reply rt)) := by
  intro h r h' he
  rcases callPython_cases he with ⟨w, reply, w', -, -, -, rfl⟩ | ⟨e, -, hs, -⟩
  · exact Std.Refl.refl (r := Climbs) h.server
  · exact Climbs.of_ledger_eq (congrArg ServerState.ledger hs)

theorem lifts_advanceGradient {cycle : UInt64} :
    Within (Lifts Host.server) (advanceGradient cycle : Op env rt (AdvanceReport rt)) := by
  have hfail : ∀ {step reason : String},
      Within (Lifts Host.server) (failCycle step reason : Op env rt (AdvanceReport rt)) :=
    within_bind (lifts_onServer climbs_cycleStepFailed) fun _ => within_throw
  refine within_bind (within_attempt lifts_callPython) fun answer => ?_
  rcases answer with e | reply
  · exact hfail
  · cases reply with
    | advanceResponse report => exact within_pure
    | registerAxisAck => exact hfail
    | perturbAck => exact hfail
    | submitMutationResponse report => exact hfail
    | commitMigrationAck => exact hfail
    | abortMigrationAck => exact hfail

theorem lifts_handleAdvanceRequest :
    Within (Lifts Host.server) (handleAdvanceRequest : Op env rt (AdvanceResponse rt)) := by
  refine within_bind (lifts_onServer climbs_readClock) fun start =>
    within_bind within_get fun h => ?_
  dsimp only
  split
  · exact within_bind (lifts_onServer climbs_cycleStepFailed) fun _ => within_throw
  · exact within_bind lifts_advanceGradient fun report => lifts_onServer climbs_settleCycle

/-! ### Migrations -/

theorem lifts_tellWorker {complaint : String} :
    Within (Lifts Host.server) (tellWorker t complaint : Op env rt PUnit) := by
  refine within_bind (within_attempt ?_) fun x => ?_
  · refine within_bind lifts_callPython fun reply => ?_
    split
    · exact within_pure
    · exact within_throw
  · cases x with
    | ok _ => exact within_pure
    | error _ => exact lifts_immune

theorem lifts_rollBack {op reason complaint : String} {cycle : UInt64} :
    Within (Lifts Host.server) (rollBack op reason complaint cycle : Op env rt PUnit) :=
  within_bind lifts_tellWorker fun _ => within_bind lifts_emit fun _ =>
    within_bind lifts_emit fun _ => lifts_set fun _ => rfl

theorem lifts_commitMigration {candidate : CandidateState} {cycle : UInt64} :
    Within (Lifts Host.server) (commitMigration candidate cycle : Op env rt PUnit) :=
  within_bind lifts_emit fun _ => within_bind lifts_tellWorker fun _ =>
    within_bind lifts_emit fun _ => within_bind lifts_emit fun _ => lifts_set fun _ => rfl

theorem lifts_runMigrationStep {response : AdvanceResponse rt} :
    Within (Lifts Host.server) (runMigrationStep response : Op env rt PUnit) := by
  refine within_bind within_get fun h => ?_
  cases h.server.migrationCandidate with
  | none => exact within_pure
  | some candidate =>
    dsimp only
    cases decideCycle candidate h.server.cycleCounter response.outcome with
    | none =>
      dsimp only
      split
      · exact lifts_emit
      · exact within_pure
    | some decision =>
      cases decision with
      | commit => exact lifts_commitMigration
      | rollback reason => exact within_bind lifts_emit fun _ => lifts_rollBack

theorem lifts_forceMigrationRollback {op reason : String} :
    Within (Lifts Host.server) (forceMigrationRollback op reason : Op env rt PUnit) := by
  refine within_bind within_get fun h => ?_
  dsimp only
  split
  · exact within_pure
  · exact lifts_rollBack

theorem lifts_checkMigrationWindow :
    Within (Lifts Host.server) (checkMigrationWindow : Op env rt PUnit) := by
  refine within_bind within_get fun h => ?_
  cases h.server.migrationCandidate with
  | none => exact within_pure
  | some candidate =>
    dsimp only
    split
    · exact within_bind lifts_immune fun _ => within_bind (lifts_set fun _ => rfl) fun _ =>
        lifts_forceMigrationRollback
    · exact within_pure

/-! ### Between requests -/

theorem lifts_runCycle :
    Within (Lifts Host.server) (runCycle : Op env rt (AdvanceResponse rt)) :=
  within_bind lifts_handleAdvanceRequest fun _ => within_bind within_get fun _ =>
    within_bind (lifts_set fun _ => rfl) fun _ => within_bind lifts_emit fun _ =>
    within_bind (within_attempt lifts_runMigrationStep) fun _ => within_pure

theorem lifts_flush :
    Within (Lifts Host.server) (flushPendingSelfDriven : Op env rt PUnit) := by
  refine within_bind within_get fun h => ?_
  split
  · exact lifts_set fun _ => rfl
  · exact within_bind (lifts_set fun _ => rfl) fun _ => within_bind lifts_emit fun _ =>
      lifts_set fun _ => rfl

theorem lifts_autonomousTick {selfDriven : Bool} :
    Within (Lifts Host.server) (autonomousTick selfDriven : Op env rt PUnit) := by
  have hdrive : Within (Lifts Host.server) (selfDrive : Op env rt PUnit) := by
    refine within_bind within_get fun h => ?_
    dsimp only
    split
    · exact lifts_set fun _ => rfl
    · exact within_bind (within_attempt lifts_flush) fun _ =>
        within_bind (within_attempt lifts_runCycle) fun _ => within_pure
  refine within_bind within_get fun h => ?_
  dsimp only
  split
  · exact within_bind hdrive fun _ => lifts_checkMigrationWindow
  · exact lifts_checkMigrationWindow

/-! ### Mutations -/

variable {report : MutationReport} {r : Ruling} {what : String}

theorem lifts_insertEvent :
    Within (Lifts Host.server) (insertEvent what nodeType content : Op env rt NodeHash) :=
  lifts_onServer (climbs_insertNode onTip)

theorem lifts_recordMutation :
    Within (Lifts Host.server) (recordMutation report r : Op env rt (Option NodeHash)) :=
  within_recordMutation lifts_immune fun _ => lifts_insertEvent

theorem lifts_commitBackupEncryptionStatus :
    Within (Lifts Host.server) (commitBackupEncryptionStatus r : Op env rt PUnit) :=
  within_commitBackupEncryptionStatus (fun _ => lifts_insertEvent) fun _ => lifts_set fun _ => rfl

theorem lifts_commitOwnerObjective :
    Within (Lifts Host.server) (commitOwnerObjective r : Op env rt PUnit) :=
  within_commitOwnerObjective (fun _ => lifts_insertEvent) fun _ => lifts_set fun _ => rfl

theorem lifts_recordCompression :
    Within (Lifts Host.server) (recordCompression r : Op env rt (Option NodeHash)) :=
  within_recordCompression fun _ => lifts_insertEvent

theorem lifts_recordEvolution :
    Within (Lifts Host.server) (recordEvolution report : Op env rt (Option NodeHash)) :=
  within_recordEvolution (fun _ => lifts_insertEvent) fun _ => lifts_insertEvent

theorem lifts_migrate : Within (Lifts Host.server)
    (migrate report r : Op env rt (Option NodeHash × Option NodeHash)) :=
  within_migrate (lifts_onServer climbs_readClock) (fun _ => lifts_set fun _ => rfl)
    (fun _ => lifts_insertEvent) (fun _ => lifts_insertEvent) fun _ => lifts_insertEvent

theorem lifts_abortMigration :
    Within (Lifts Host.server) (abortMigration report r : Op env rt PUnit) := by
  refine within_bind within_get fun h => ?_
  cases h.server.migrationCandidate with
  | none => exact within_pure
  | some candidate =>
    dsimp only
    split
    · refine within_bind (within_attempt lifts_forceMigrationRollback) fun x => ?_
      cases x with
      | ok _ => exact within_pure
      | error _ => exact lifts_immune
    · exact within_pure

theorem lifts_record : Within (Lifts Host.server) (record report r : Op env rt Recorded) :=
  within_bind lifts_recordMutation fun _ => within_bind lifts_commitBackupEncryptionStatus fun _ =>
    within_bind lifts_commitOwnerObjective fun _ => within_bind lifts_recordCompression fun _ =>
    within_bind lifts_recordEvolution fun _ => within_bind lifts_migrate fun _ =>
    within_bind lifts_abortMigration fun _ => within_pure

theorem lifts_rule : Within (Lifts Host.server) (rule report : Op env rt Ruling) :=
  within_rule lifts_immune

theorem lifts_handleSubmitMutation {request : Message} : Within (Lifts Host.server)
    (handleSubmitMutationRequest request : Op env rt (Option Message)) := by
  have hsubmit : Within (Lifts Host.server) (submit request.payload : Op env rt Submission) := by
    refine within_bind lifts_callPython fun reply => ?_
    cases reply with
    | submitMutationResponse report =>
      exact within_bind lifts_rule fun _ => within_bind lifts_record fun _ => within_pure
    | registerAxisAck => exact within_throw
    | perturbAck => exact within_throw
    | advanceResponse report => exact within_throw
    | commitMigrationAck => exact within_throw
    | abortMigrationAck => exact within_throw
  unfold handleSubmitMutationRequest
  dsimp only
  split
  · exact within_bind lifts_immune fun _ => within_pure
  · split
    · exact within_bind lifts_immune fun _ => within_pure
    · exact within_bind hsubmit fun _ => within_pure

/-! ### Requests -/

theorem lifts_forwardToPython {expected : String} {request : Message} :
    Within (Lifts Host.server) (forwardToPython t expected request : Op env rt (Reply rt)) := by
  refine within_bind lifts_callPython fun response => ?_
  split
  · exact within_pure
  · exact within_throw

theorem lifts_quarantineBlock {α : Type} {opName : String} :
    Within (Lifts Host.server) (quarantineBlock opName : Op env rt α) :=
  within_bind lifts_immune fun _ => within_throw

theorem lifts_registerAxis {request : Message} :
    Within (Lifts Host.server) (registerAxis request : Op env rt (Reply rt)) := by
  have hrecord : Within (Lifts Host.server)
      (recordAxisRegistered request.payload : Op env rt PUnit) := by
    unfold recordAxisRegistered
    split
    · exact within_pure
    · exact within_bind lifts_emit fun _ => lifts_set fun _ => rfl
  refine within_bind within_get fun h => ?_
  split
  · exact lifts_quarantineBlock
  · exact within_bind lifts_forwardToPython fun _ => within_bind hrecord fun _ => within_pure

theorem lifts_perturb {request : Message} :
    Within (Lifts Host.server) (perturb request : Op env rt (Reply rt)) := by
  have hrecord : Within (Lifts Host.server)
      (recordAxisPerturbed request.payload : Op env rt PUnit) := by
    unfold recordAxisPerturbed
    split
    · exact lifts_emit
    · exact within_pure
  refine within_bind within_get fun h => ?_
  split
  · exact lifts_quarantineBlock
  · exact within_bind lifts_forwardToPython fun _ => within_bind hrecord fun _ => within_pure

/-- The raw material comes after the tip, or is the tip. -/
theorem linkParents_eq (s : ServerState env) (h : NodeHash) :
    ∃ ps, linkParents s h = s.tipParents ++ ps := by
  unfold linkParents ServerState.tipParents
  cases s.ledger.tip with
  | none => exact ⟨[h], rfl⟩
  | some tip =>
    by_cases ht : tip ≠ h
    · exact ⟨[h], by simp [ht]⟩
    · exact ⟨[], by simp [not_not.1 ht]⟩

theorem lifts_perturbFromRaw {request : Message} : Within (Lifts Host.server)
    (perturbAxisFromRawMaterial request : Op env rt (Option Message)) := by
  refine within_bind within_ofExcept fun p => within_bind within_get fun h =>
    within_bind within_ofExcept fun _ => ?_
  split
  · exact within_throw
  · refine within_bind lifts_callPython fun response => ?_
    split
    · exact within_bind (lifts_onServer (climbs_insertNode fun s => linkParents_eq s _)) fun _ =>
        within_pure
    · exact within_throw

theorem lifts_advance :
    Within (Lifts Host.server) (advance : Op env rt (AdvanceResponse rt)) := by
  refine within_bind within_get fun h => ?_
  split
  · exact within_throw
  · exact lifts_runCycle

theorem lifts_request {q : Request} : Within (Lifts Host.server) (q.run : Op env rt PUnit) := by
  cases q with
  | registerAxis m => exact within_bind lifts_registerAxis fun _ => within_pure
  | perturb m => exact within_bind lifts_perturb fun _ => within_pure
  | perturbFromRaw m => exact within_bind lifts_perturbFromRaw fun _ => within_pure
  | advance => exact within_bind lifts_advance fun _ => within_pure
  | submitMutation m => exact within_bind lifts_handleSubmitMutation fun _ => within_pure

end

end Myco.Tropism
