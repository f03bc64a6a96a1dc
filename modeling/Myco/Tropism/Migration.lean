import Myco.Tropism.Cycle

/-!
# Migrations

The decision of `kernel/schema/src/migration.rs` and what `substrate/src/ingest.rs` does about it
after every cycle: a migration goes on, or it is committed and the worker promotes its candidate,
or it is rolled back and the worker drops it.

The substrate does not look at what the worker promotes. What a step does to the core is
`Core.migrate`, and none of these operations fails.
-/

namespace Myco.Tropism

open Myco.Lib Myco.Canonical Myco.Schema Myco.Substrate

variable {env : Env} {rt : Runtime}

/-! ### The decision -/

def defaultDualValidationWindowCycles : UInt64 := 100

def defaultMigrationGraceCycles : UInt64 := 10

inductive DualValidationCycle where
  | equivalent
  | diverged
deriving DecidableEq

inductive CommitDecision where
  | commit
  | rollback (reason : String)
deriving DecidableEq

def windowComplete (candidate : CandidateState) (currentCycle : UInt64) : Bool :=
  saturatingSub currentCycle candidate.startedAtCycle ≥ candidate.dualValidationWindowCycles

def windowExceeded (candidate : CandidateState) (currentCycle graceCycles : UInt64) : Bool :=
  saturatingSub currentCycle candidate.startedAtCycle >
    saturatingAdd candidate.dualValidationWindowCycles graceCycles

def decideCycle (candidate : CandidateState) (currentCycle : UInt64) :
    DualValidationCycle → Option CommitDecision
  | .diverged => some (.rollback s!"candidate diverged from active at cycle {currentCycle} (op={
      candidate.opName}, started_at_cycle={candidate.startedAtCycle})")
  | .equivalent => if windowComplete candidate currentCycle then some .commit else none

/-- A candidate that the worker has not advanced counts as diverged. -/
def AdvanceResponse.outcome (response : AdvanceResponse rt) : DualValidationCycle :=
  if ¬ response.candidateActive ∨ response.candidateDiverged then .diverged else .equivalent

/-! ### Telling the worker -/

def Reply.messageType : Reply rt → String
  | .registerAxisAck => "register_axis_ack"
  | .perturbAck => "perturb_ack"
  | .advanceResponse _ => "advance_response"
  | .submitMutationResponse _ => "submit_mutation_response"
  | .commitMigrationAck => "commit_migration_ack"
  | .abortMigrationAck => "abort_migration_ack"

def expectedAck : MessageType → String
  | .commitMigration => "commit_migration_ack"
  | _ => "abort_migration_ack"

def sendMigrationTerminal (messageType : MessageType) : Op env rt PUnit := do
  let reply ← callPython messageType []
  if reply.messageType = expectedAck messageType then pure ⟨⟩
  else throw (.protocol s!"expected {expectedAck messageType} from python; got {reply.messageType}")

/-- Sends it, and complains of a failure. -/
def tellWorker (messageType : MessageType) (complaint : String) : Op env rt PUnit := do
  match ← (sendMigrationTerminal messageType).attempt with
  | .ok _ => pure ⟨⟩
  | .error e => immune "C31_cycle_step_failed" "cycle_step_failed" s!"{complaint} failed: {e.text}"

/-! ### Events -/

def encodeEvolutionEvent (op : String) (succeeded : Bool) (summary failureReason : String) : Bytes :=
  cbEncode ([("op", .string op), ("succeeded", .bool succeeded), ("summary", .string summary)] ++
    entryIf "failure_reason" .string (if succeeded then none else some failureReason))

def evolutionNodeType (succeeded : Bool) (op : String) : String :=
  (if succeeded then evolutionSucceededPrefix else evolutionFailedPrefix) ++ op

def emitLegacyEvolutionEvent (op : String) (succeeded : Bool) (failureReason : String) :
    Op env rt PUnit :=
  emit (evolutionNodeType succeeded op) (encodeEvolutionEvent op succeeded
    s!"two-phase migration {outcomeText}" failureReason)
where
  outcomeText : String := if succeeded then "committed" else "rolled back"

def clearCandidate : Op env rt PUnit :=
  onServer (modify fun s => { s with migrationCandidate := none })

/-! ### After a cycle -/

def cycleValidatedSampleEvery : UInt64 := 10

def emitCycleValidated (op : String) (currentCycle : UInt64) (equivalent : Bool)
    (divergenceReason : String) : Op env rt PUnit :=
  emit (migrationCycleValidatedPrefix ++ op)
    (encodeSchemaMigrationCycleValidated op currentCycle equivalent divergenceReason)

def commitMigration (candidate : CandidateState) (currentCycle : UInt64) : Op env rt PUnit := do
  let op := candidate.opName
  emitCycleValidated op currentCycle true ""
  tellWorker .commitMigration s!"commit_migration (op={op}) Python call"
  emit (migrationCommittedPrefix ++ op) (encodeSchemaMigrationCommitted op currentCycle
    candidate.startedAtCycle candidate.dualValidationWindowCycles)
  emitLegacyEvolutionEvent op true ""
  clearCandidate

/-- What every rollback ends with. -/
def rollBack (op reason complaint : String) (currentCycle : UInt64) : Op env rt PUnit := do
  tellWorker .abortMigration complaint
  emit (migrationRolledBackPrefix ++ op) (encodeSchemaMigrationRolledBack op reason currentCycle)
  emitLegacyEvolutionEvent op false reason
  clearCandidate

def runMigrationStep (response : AdvanceResponse rt) : Op env rt PUnit := do
  let h ← get
  match h.server.migrationCandidate with
  | none => pure ⟨⟩
  | some candidate =>
    let currentCycle := h.server.cycleCounter
    let op := candidate.opName
    match decideCycle candidate currentCycle response.outcome with
    | none =>
      let elapsed := saturatingSub currentCycle candidate.startedAtCycle
      if elapsed > 0 ∧ elapsed % cycleValidatedSampleEvery = 0 then
        emitCycleValidated op currentCycle (response.outcome = .equivalent) response.divergenceReason
      else pure ⟨⟩
    | some .commit => commitMigration candidate currentCycle
    | some (.rollback reason) =>
      emitCycleValidated op currentCycle false reason
      rollBack op reason s!"abort_migration (op={op}) Python call" currentCycle

def forceMigrationRollback (op reason : String) : Op env rt PUnit := do
  let h ← get
  if h.server.migrationCandidate.isNone then pure ⟨⟩
  else
    let currentCycle := h.server.cycleCounter
    rollBack op reason s!"force_migration_rollback abort_migration (op={op})" currentCycle

/-! ### The window -/

def c66WindowExceededCooldownCycles : UInt64 := 100

/-- The detector of the autonomous tick for a migration that has outlived its window. -/
def checkMigrationWindow : Op env rt PUnit := do
  let h ← get
  match h.server.migrationCandidate with
  | none => pure ⟨⟩
  | some candidate =>
    let cycle := h.server.cycleCounter
    let elapsed := saturatingSub cycle candidate.startedAtCycle
    let limit := saturatingAdd candidate.dualValidationWindowCycles defaultMigrationGraceCycles
    if h.server.handshakeComplete ∧ candidate.phase = .validating ∧
        windowExceeded candidate cycle defaultMigrationGraceCycles ∧
        ¬ coolingDown h.server.lastMigrationWindowExceededEmittedAtCycle cycle
          c66WindowExceededCooldownCycles then
      immune "C66_schema_migration_window_exceeded" "schema_migration_window_exceeded"
        (s!"schema migration (op={candidate.opName}) exceeded its dual-validation window: " ++
          s!"started_at_cycle={candidate.startedAtCycle}, window={
          candidate.dualValidationWindowCycles}, grace={defaultMigrationGraceCycles}, " ++
          s!"current_cycle={cycle} (elapsed {elapsed} > window+grace {limit}); forcing rollback per P03 " ++
          s!"§10.4 so the candidate cannot linger. Most likely cause: substrate restarted mid-window or " ++
          s!"the operator stopped driving cycles.")
      onServer (modify fun s => { s with lastMigrationWindowExceededEmittedAtCycle := some cycle })
      forceMigrationRollback candidate.opName
        s!"C66 window exceeded (elapsed {elapsed} > window+grace {limit})"
    else pure ⟨⟩

/-! ### What becomes of the core -/

def DispatcherState.committed (w : DispatcherState rt) : DispatcherState rt :=
  ⟨w.candidateGradient.getD w.gradient, none, "", []⟩

def DispatcherState.aborted (w : DispatcherState rt) : DispatcherState rt :=
  ⟨w.gradient, none, "", []⟩

namespace Core

def committed (c : Core rt) : Core rt :=
  { c with python := c.python.map DispatcherState.committed, migrationCandidate := none }

def rolledBack (c : Core rt) : Core rt :=
  { c with python := c.python.map DispatcherState.aborted, migrationCandidate := none }

def migrate (outcome : DualValidationCycle) (c : Core rt) : Core rt :=
  match c.migrationCandidate with
  | none => c
  | some candidate =>
    match decideCycle candidate c.cycleCounter outcome with
    | none => c
    | some .commit => c.committed
    | some (.rollback _) => c.rolledBack

end Core

/-- The program does not fail, and does this to the core. -/
structure Turns {α : Type} (f : Core rt → Core rt) (m : Op env rt α) : Prop where
  succeeds : Succeeds m
  within : Within (fun h h' => h'.core = f h.core) m

section

variable {α β : Type} {f g : Core rt → Core rt} {m : Op env rt α}

theorem Turns.bind {k : α → Op env rt β} (hm : Turns f m) (hk : ∀ a, Turns g (k a)) :
    Turns (fun c => g (f c)) (m >>= k) where
  succeeds := succeeds_bind hm.succeeds fun a => (hk a).succeeds
  within := hm.succeeds.within_bind hm.within (fun a => (hk a).within) fun _ _ _ h1 h2 => by
    rw [h2, h1]

theorem Turns.exec (hm : Turns f m) {h h' : Host env rt} {r : Except SubstrateError α}
    (he : m.exec h = some (r, h')) : (∃ a, r = .ok a) ∧ h'.core = f h.core :=
  ⟨hm.succeeds h r h' he, hm.within h r h' he⟩

theorem turns_immune {detectorId detectorName evidence : String} :
    Turns id (immune detectorId detectorName evidence : Op env rt PUnit) where
  succeeds := succeeds_bind succeeds_attempt fun _ => succeeds_pure
  within := keeps_immune

theorem turns_emit {nodeType : String} {content : Bytes} (h : ¬ Watched replayed.texts nodeType) :
    Turns id (emit nodeType content : Op env rt PUnit) where
  succeeds := succeeds_bind succeeds_attempt fun _ => succeeds_pure
  within := keeps_emit h

theorem turns_modify {g : ServerState env → ServerState env}
    (hg : ∀ h : Host env rt, ({ h with server := g h.server } : Host env rt).core = f h.core) :
    Turns f (onServer (modify g) : Op env rt PUnit) where
  succeeds := by
    intro h r h' he
    obtain ⟨s, h1, -⟩ := Prog.exec_zoom_eq_some.1 he
    cases h1
    exact ⟨_, rfl⟩
  within := by
    intro h r h' he
    obtain ⟨s, h1, rfl⟩ := Prog.exec_zoom_eq_some.1 he
    cases h1
    exact hg h

end

theorem not_watched_evolution {succeeded : Bool} {op : String} :
    ¬ Watched replayed.texts (evolutionNodeType succeeded op) := by
  cases succeeded
  · exact not_watched (p := evolutionFailedPrefix) startsWith_append (by decide)
  · exact not_watched (p := evolutionSucceededPrefix) startsWith_append (by decide)

theorem turns_emitLegacyEvolutionEvent {op failureReason : String} {succeeded : Bool} :
    Turns id (emitLegacyEvolutionEvent op succeeded failureReason : Op env rt PUnit) :=
  turns_emit not_watched_evolution

theorem turns_emitCycleValidated {op reason : String} {cycle : UInt64} {b : Bool} :
    Turns id (emitCycleValidated op cycle b reason : Op env rt PUnit) :=
  turns_emit (not_watched (p := migrationCycleValidatedPrefix) startsWith_append (by decide))

theorem turns_clearCandidate :
    Turns (fun c => { c with migrationCandidate := none }) (clearCandidate : Op env rt PUnit) :=
  turns_modify fun _ => rfl

/-- A worker that is there does as it is told. -/
theorem turns_tellWorker {t : MessageType} {complaint : String}
    {g : DispatcherState rt → DispatcherState rt}
    (ht : ∀ w, ∃ reply, dispatch w t [] = .ok (reply, g w) ∧ reply.messageType = expectedAck t) :
    Turns (fun c => { c with python := c.python.map g })
      (tellWorker t complaint : Op env rt PUnit) := by
  have hboth : ∀ h r h', (tellWorker t complaint : Op env rt PUnit).exec h = some (r, h') →
      (∃ a, r = .ok a) ∧ h'.core = { h.core with python := h.core.python.map g } := by
    intro h r h' he
    rw [tellWorker] at he
    obtain ⟨x, u, h1, h2⟩ := succeeds_attempt.exec_bind he
    obtain ⟨y, h3, hx⟩ := Prog.exec_attempt_eq_some.1 h1
    cases hx
    rw [sendMigrationTerminal] at h3
    rw [show h.core.python = h.python from rfl]
    cases hp : h.python with
    | none =>
      have hcall : (callPython t [] : Op env rt (Reply rt)).exec h = some (.error workerGone, h) := by
        rw [callPython, Prog.exec_get_bind, hp]
        rfl
      rw [Prog.exec_bind, hcall] at h3
      cases h3
      obtain ⟨ha, hc⟩ := turns_immune.exec h2
      exact ⟨ha, hc.trans (by simp [Host.core, hp])⟩
    | some w =>
      obtain ⟨reply, hd, hack⟩ := ht w
      have hcall : (callPython t [] : Op env rt (Reply rt)).exec h =
          some (.ok reply, { h with python := some (g w) }) := by
        rw [callPython, Prog.exec_get_bind, hp]
        simp only [hd, Prog.exec_modify_bind, Prog.exec_pure]
      rw [Prog.exec_bind, hcall, Option.bind_some] at h3
      simp only [hack, if_true] at h3
      cases h3
      cases h2
      exact ⟨⟨_, rfl⟩, rfl⟩
  exact ⟨fun h r h' he => (hboth h r h' he).1, fun h r h' he => (hboth h r h' he).2⟩

theorem turns_commitMigration {candidate : CandidateState} {cycle : UInt64} :
    Turns Core.committed (commitMigration candidate cycle : Op env rt PUnit) :=
  turns_emitCycleValidated.bind fun _ =>
    (turns_tellWorker (g := DispatcherState.committed) fun _ => ⟨_, rfl, rfl⟩).bind fun _ =>
    (turns_emit (not_watched (p := migrationCommittedPrefix) startsWith_append (by decide))).bind
      fun _ => turns_emitLegacyEvolutionEvent.bind fun _ => turns_clearCandidate

theorem turns_rollBack {op reason complaint : String} {cycle : UInt64} :
    Turns Core.rolledBack (rollBack op reason complaint cycle : Op env rt PUnit) :=
  (turns_tellWorker (g := DispatcherState.aborted) fun _ => ⟨_, rfl, rfl⟩).bind fun _ =>
    (turns_emit (not_watched (p := migrationRolledBackPrefix) startsWith_append (by decide))).bind
      fun _ => turns_emitLegacyEvolutionEvent.bind fun _ => turns_clearCandidate

/-- A migration that is forced back is rolled back, if there is one. -/
theorem forceMigrationRollback_exec {op reason : String} {h h' : Host env rt}
    {r : Except SubstrateError PUnit}
    (he : (forceMigrationRollback op reason).exec h = some (r, h')) :
    (∃ a, r = .ok a) ∧ (h'.core = h.core ∧ h.server.migrationCandidate = none ∨
      h'.core = h.core.rolledBack) := by
  rw [forceMigrationRollback, Prog.exec_get_bind] at he
  split at he
  · rename_i hnone
    cases he
    exact ⟨⟨_, rfl⟩, .inl ⟨rfl, Option.isNone_iff_eq_none.1 hnone⟩⟩
  · obtain ⟨ha, hc⟩ := turns_rollBack.exec he
    exact ⟨ha, .inr hc⟩

/-! ### What migrating leaves alone -/

/-- What the events of a migration start with. -/
def migrationTexts : List String :=
  [migrationStartedPrefix, migrationCycleValidatedPrefix, migrationCommittedPrefix,
    migrationRolledBackPrefix, evolutionSucceededPrefix, evolutionFailedPrefix]

/-- Looks neither at these events nor at the migration in flight. -/
structure Watch.Sedentary (W : Watch) : Prop where
  texts : ∀ p ∈ migrationTexts, ∀ w ∈ W.texts, Apart p w
  candidate : ∀ s c, W.see { s with migrationCandidate := c } = W.see s

section

variable {W : Watch}

theorem Watch.Sedentary.not_watched (hW : W.Sedentary) {p nodeType : String}
    (hp : p ∈ migrationTexts) (h : startsWith p nodeType) : ¬ Watched W.texts nodeType :=
  Tropism.not_watched h (hW.texts p hp)

theorem Watch.Sedentary.emit (hW : W.Sedentary) {p nodeType : String} {content : Bytes}
    (hp : p ∈ migrationTexts) (h : startsWith p nodeType) :
    Within (Spares W) (emit nodeType content : Op env rt PUnit) :=
  (leaves_emit (hW.not_watched hp h)).mono fun _ _ => Leaves.spares

theorem Watch.Sedentary.emitLegacy (hW : W.Sedentary) {op reason : String} {succeeded : Bool} :
    Within (Spares W) (emitLegacyEvolutionEvent op succeeded reason : Op env rt PUnit) := by
  cases succeeded
  · exact hW.emit (p := evolutionFailedPrefix) (by simp [migrationTexts]) startsWith_append
  · exact hW.emit (p := evolutionSucceededPrefix) (by simp [migrationTexts]) startsWith_append

theorem Watch.Sedentary.emitValidated (hW : W.Sedentary) {op reason : String} {cycle : UInt64}
    {b : Bool} : Within (Spares W) (emitCycleValidated op cycle b reason : Op env rt PUnit) :=
  hW.emit (p := migrationCycleValidatedPrefix) (by simp [migrationTexts]) startsWith_append

theorem spares_immune {detectorId detectorName evidence : String} :
    Within (Spares W) (immune detectorId detectorName evidence : Op env rt PUnit) :=
  leaves_immune.mono fun _ _ => Leaves.spares

theorem spares_sendMigrationTerminal {t : MessageType} :
    Within (Spares W) (sendMigrationTerminal t : Op env rt PUnit) := by
  refine within_bind spares_callPython fun reply => ?_
  split
  · exact within_pure
  · exact within_throw

theorem spares_tellWorker {t : MessageType} {complaint : String} :
    Within (Spares W) (tellWorker t complaint : Op env rt PUnit) := by
  refine within_bind (within_attempt spares_sendMigrationTerminal) fun x => ?_
  cases x with
  | ok _ => exact within_pure
  | error _ => exact spares_immune

theorem spares_modify {g : ServerState env → ServerState env}
    (hl : ∀ s, (g s).ledger = s.ledger) (hs : ∀ s, W.see (settings (g s)) = W.see (settings s)) :
    Within (Spares W) (onServer (modify g) : Op env rt PUnit) :=
  (leaves_onServer (aside_modify hl hs)).mono fun _ _ => Leaves.spares

theorem Watch.Sedentary.clearCandidate (hW : W.Sedentary) :
    Within (Spares W) (clearCandidate : Op env rt PUnit) :=
  spares_modify (fun _ => rfl) fun s => hW.candidate (settings s) none

theorem Watch.Sedentary.rollBack (hW : W.Sedentary) {op reason complaint : String}
    {cycle : UInt64} :
    Within (Spares W) (rollBack op reason complaint cycle : Op env rt PUnit) :=
  within_bind spares_tellWorker fun _ => within_bind (hW.emit (p := migrationRolledBackPrefix)
    (by simp [migrationTexts]) startsWith_append) fun _ => within_bind hW.emitLegacy fun _ =>
    hW.clearCandidate

theorem Watch.Sedentary.commitMigration (hW : W.Sedentary) {candidate : CandidateState}
    {cycle : UInt64} : Within (Spares W) (commitMigration candidate cycle : Op env rt PUnit) :=
  within_bind hW.emitValidated fun _ => within_bind spares_tellWorker fun _ =>
    within_bind (hW.emit (p := migrationCommittedPrefix) (by simp [migrationTexts])
      startsWith_append) fun _ => within_bind hW.emitLegacy fun _ => hW.clearCandidate

theorem Watch.Sedentary.runMigrationStep (hW : W.Sedentary) {response : AdvanceResponse rt} :
    Within (Spares W) (runMigrationStep response : Op env rt PUnit) := by
  refine within_bind within_get fun h => ?_
  cases h.server.migrationCandidate with
  | none => exact within_pure
  | some candidate =>
    dsimp only
    cases decideCycle candidate h.server.cycleCounter response.outcome with
    | none =>
      dsimp only
      split
      · exact hW.emitValidated
      · exact within_pure
    | some decision =>
      cases decision with
      | commit => exact hW.commitMigration
      | rollback reason => exact within_bind hW.emitValidated fun _ => hW.rollBack

theorem Watch.Sedentary.forceMigrationRollback (hW : W.Sedentary) {op reason : String} :
    Within (Spares W) (forceMigrationRollback op reason : Op env rt PUnit) := by
  refine within_bind within_get fun h => ?_
  dsimp only
  split
  · exact within_pure
  · exact hW.rollBack

theorem Watch.Sedentary.checkMigrationWindow (hW : W.Sedentary) :
    Within (Spares W) (checkMigrationWindow : Op env rt PUnit) := by
  refine within_bind within_get fun h => ?_
  cases h.server.migrationCandidate with
  | none => exact within_pure
  | some candidate =>
    dsimp only
    split
    · exact within_bind spares_immune fun _ =>
        within_bind (spares_modify (fun _ => rfl) fun _ => rfl) fun _ => hW.forceMigrationRollback
    · exact within_pure

end

end Myco.Tropism
