import Myco.Tropism.Deeds

/-!
# What an event tells

The lists of deeds of cycles, ticks and submissions. Which lists a step may perform is told by its
event, and by whether it was answered with a success (`step_performs`).

A submission that the worker has answered is never refused later on, short of a collision, but for
the migration in flight. By then the worker has built its candidate: that is `Submits.built`.
-/

namespace Myco.Tropism

open Myco.Lib Myco.Canonical Myco.Schema Myco.Substrate Myco.Federation Myco.Prune

variable {env : Env} {rt : Runtime}

/-! ### Advancing -/

/-- What the substrate makes of what the worker has reported of a cycle. -/
def AdvanceReport.outcome (report : AdvanceReport rt) : DualValidationCycle :=
  if ¬ report.candidateActive ∨ report.candidateDiverged then .diverged else .equivalent

/-- What a cycle that was judged this way ends with. -/
inductive Verdict (outcome : DualValidationCycle) : Deed rt → Prop
  | kept : Verdict outcome (.kept outcome)
  | committed {candidate : CandidateState} : outcome = .equivalent →
      Verdict outcome (.committed candidate)
  | rolledBack {candidate : CandidateState} : outcome = .diverged →
      Verdict outcome (.rolledBack candidate)

/-- A whole cycle. -/
inductive Cycles : List (Deed rt) → Prop
  | mk {report : AdvanceReport rt} {prior : UInt64} {n : DagNode} {d : Deed rt} :
      IsNode cycleAdvancedType (encodeCycleAdvanced prior (saturatingAdd prior 1)) n →
      Verdict report.outcome d → Cycles [.advanced report, .counted, .recorded n, d]

/-- Idle cycles, sealed in one event or none. -/
inductive Flushes : List (Deed rt) → Prop
  | dropped : Flushes [.dropped]
  | sealed {prior next : UInt64} {n : DagNode} :
      IsNode cycleAdvancedType (encodeCycleAdvanced prior next) n →
      Flushes [.sealed, .recorded n, .dropped]

section

variable {h h' : Host env rt}

theorem performs_modify {g : ServerState env → ServerState env} {d : Deed rt}
    {r : Except SubstrateError PUnit} (he : (onServer (modify g)).exec h = some (r, h'))
    (hl : (g h.server).ledger = h.server.ledger)
    (hd : Core.Does h.core d ({ h with server := g h.server } : Host env rt).core)
    (hf : account ({ h with server := g h.server } : Host env rt) = account h)
    (hm : d.marks = []) :
    Unless HostCollided (fun h h' => (∃ a, r = .ok a) ∧ Performs [d] h h') h h' := by
  obtain ⟨s, h1, rfl⟩ := exec_onServer.1 he
  cases h1
  exact ⟨fun hc => by rwa [HostCollided, Collided, hl], fun _ => ⟨⟨_, rfl⟩,
    performs_singleton hd (by rw [hf, hm, List.append_nil])⟩⟩

/-- The counter is set and an event says so. -/
theorem performs_sealing {α : Type} {m : Op env rt α} {next : UInt64} {d : Deed rt}
    {r : Except SubstrateError α}
    (hd : Core.Does h.core d { h.core with cycleCounter := next }) (hm : d.marks = [])
    (he : ((do
      onServer (modify fun s => { s with cycleCounter := next })
      emit cycleAdvancedType (encodeCycleAdvanced h.server.cycleCounter next)
      m : Op env rt α)).exec h = some (r, h')) :
    ∃ t, m.exec t = some (r, h') ∧ Unless HostCollided (fun h t => ∃ n,
      IsNode cycleAdvancedType (encodeCycleAdvanced h.server.cycleCounter next) n ∧
      Performs [d, .recorded n] h t) h t := by
  rcases Prog.exec_bind_eq_some.1 he with ⟨e, h1, -⟩ | ⟨_, t, h1, h2⟩
  · obtain ⟨s, h3, -⟩ := exec_onServer.1 h1
    cases h3
  have hcounted := performs_modify h1 rfl hd rfl hm
  obtain ⟨_, u, h3, h4⟩ := succeeds_emit.exec_bind h2
  refine ⟨u, h4, hcounted.trans ((does_emitReplayed (p := cycleAdvancedType)
    (by simp [replayedTexts]) (by simp [startsWith])).within _ _ _ h3) fun ⟨_, hp1⟩ hrec => ?_⟩
  obtain ⟨ds, ⟨hn⟩, hp2⟩ := hrec
  exact ⟨_, hn, hp1.append hp2⟩

theorem performs_flush :
    Does HostCollided (PerformsOne Flushes) (flushPendingSelfDriven : Op env rt PUnit) := by
  have hdropped : ∀ {h h' : Host env rt} {r : Except SubstrateError PUnit},
      (onServer (modify fun s : ServerState env =>
        { s with pendingSelfDrivenNoopCycles := 0 }) : Op env rt PUnit).exec h = some (r, h') →
      Unless HostCollided (fun h h' => (∃ a, r = .ok a) ∧ Performs [.dropped] h h') h h' :=
    fun he => performs_modify he rfl .dropped rfl rfl
  intro h r h' he
  rw [flushPendingSelfDriven, Prog.exec_get_bind] at he
  split at he
  · exact (hdropped he).imp fun ⟨ha, hd⟩ => ⟨ha, _, .dropped, hd⟩
  · obtain ⟨t, h1, hsealed⟩ := performs_sealing (d := .sealed) .sealed rfl he
    refine hsealed.trans (hdropped h1) fun ⟨n, hn, hp1⟩ ⟨ha, hp2⟩ => ?_
    exact ⟨ha, _, .sealed hn, hp1.append hp2⟩

theorem still_onServer {α : Type} {m : Handler env α} {r : Except SubstrateError α}
    (h1 : Within (Aside migrations) m) (h2 : Within (Aside replayed) m)
    (he : (onServer m).exec h = some (r, h')) : Unless HostCollided Still h h' :=
  still_of_spares ((leaves_onServer h1).mono fun _ _ => Leaves.spares) (leaves_onServer h2) _ _ _ he

theorem failCycle_exec {α : Type} {step reason : String} {r : Except SubstrateError α}
    (he : (failCycle step reason).exec h = some (r, h')) :
    (∃ e, r = .error e) ∧ Unless HostCollided Still h h' := by
  rw [failCycle] at he
  rcases Prog.exec_bind_eq_some.1 he with ⟨e, h1, rfl⟩ | ⟨_, t, h1, h2⟩
  · exact ⟨⟨e, rfl⟩, still_onServer aside_cycleStepFailed aside_cycleStepFailed h1⟩
  · cases h2
    exact ⟨⟨_, rfl⟩, still_onServer aside_cycleStepFailed aside_cycleStepFailed h1⟩

theorem halts_of_still (h1 : Unless HostCollided Still h h') :
    Unless HostCollided (PerformsOne Halts) h h' := h1.imp fun hs => ⟨[], .nothing, hs⟩

theorem PerformsOne.trans_still {P : List (Deed rt) → Prop} {t : Host env rt}
    (h1 : PerformsOne P h t) (h2 : Still t h') : PerformsOne P h h' := by
  obtain ⟨ds, hds, hp⟩ := h1
  exact ⟨ds, hds, hp.trans_still h2⟩

theorem performs_advanceGradient {r : Except SubstrateError (AdvanceReport rt)}
    (he : (advanceGradient (h.server.cycleCounter + 1)).exec h = some (r, h')) :
    (∃ report, r = .ok report ∧ h'.server = h.server ∧
      Unless HostCollided (Performs [.advanced report]) h h') ∨
    (∃ e, r = .error e ∧ Unless HostCollided (PerformsOne Halts) h h') := by
  rw [advanceGradient] at he
  obtain ⟨x, t, h1, h2⟩ := succeeds_attempt.exec_bind he
  obtain ⟨y, h3, hx⟩ := Prog.exec_attempt_eq_some.1 h1
  cases hx
  cases x with
  | error e =>
    obtain ⟨⟨e', rfl⟩, hstill⟩ := failCycle_exec h2
    exact .inr ⟨e', rfl, (halts_of_callPython h3).trans hstill PerformsOne.trans_still⟩
  | ok reply =>
    rcases callPython_cases h3 with ⟨w, reply', w', hp, hd, hr, rfl⟩ | ⟨e, hr, -⟩
    · cases hr
      have hdispatch : handleAdvance w (advancePayload (h.server.cycleCounter + 1)) =
        .ok (reply, w') := hd
      rw [handleAdvance_eq] at hdispatch
      cases hdispatch
      cases h2
      exact .inl ⟨_, rfl, rfl, performs_python (.advanced hp rfl) rfl⟩
    · cases hr

theorem performs_handleAdvance {r : Except SubstrateError (AdvanceResponse rt)}
    (he : handleAdvanceRequest.exec h = some (r, h')) :
    Unless HostCollided (fun h h' => (∃ response report, r = .ok response ∧
        response.outcome = report.outcome ∧ Performs [.advanced report] h h') ∨
      (∃ e, r = .error e ∧ PerformsOne Halts h h')) h h' := by
  have hclock : Succeeds (onServer readClock : Op env rt Int64) := by
    intro h r h' he
    obtain ⟨s, h1, -⟩ := exec_onServer.1 he
    cases h1
    exact ⟨_, rfl⟩
  rw [handleAdvanceRequest] at he
  obtain ⟨start, t, h1, h2⟩ := hclock.exec_bind he
  have hread := still_onServer aside_readClock aside_readClock h1
  rw [Prog.exec_get_bind] at h2
  dsimp only at h2
  split at h2
  · obtain ⟨⟨e, rfl⟩, hstill⟩ := failCycle_exec h2
    exact hread.trans (halts_of_still hstill) fun hs ⟨ds, hds, hp⟩ =>
      .inr ⟨e, rfl, ds, hds, hs.append hp⟩
  · rcases Prog.exec_bind_eq_some.1 h2 with ⟨e, h3, rfl⟩ | ⟨report, u, h3, h4⟩
    · rcases performs_advanceGradient h3 with ⟨_, hr, -⟩ | ⟨e', hr, hhalts⟩
      · cases hr
      · exact hread.trans hhalts fun hs ⟨ds, hds, hp⟩ => .inr ⟨e, rfl, ds, hds, hs.append hp⟩
    rcases performs_advanceGradient h3 with ⟨report', hr, hserver, hadvanced⟩ | ⟨e', hr, -⟩
    · cases hr
      obtain ⟨s, h5, rfl⟩ := exec_onServer.1 h4
      have hpend : ∀ k ∈ pendingAbsorptionHashes t.server, k ∈ u.server.nodes.map DagNode.hash := by
        rw [hserver]
        exact pendingAbsorptionHashes_subset
      have hsettled := settleCycle_ends hpend h5
      have hstill := still_onServer aside_settleCycle aside_settleCycle h4
      refine ⟨fun hc => hstill.stays (hadvanced.stays (hread.stays hc)), fun hc => ?_⟩
      obtain ⟨response, hr, hactive, hdiverged⟩ := hsettled.holds hc
      have hu : ¬ HostCollided u := fun hb => hc (hstill.stays hb)
      have ht : ¬ HostCollided t := fun hb => hu (hadvanced.stays hb)
      refine .inl ⟨response, report, hr, ?_, ((hread.holds ht).append
        (hadvanced.holds hu)).trans_still (hstill.holds hc)⟩
      rw [AdvanceResponse.outcome, hactive, hdiverged]
      rfl
    · cases hr

theorem performs_closing {d : Deed rt} {ms : List Mark} {m : Op env rt PUnit}
    {f : Core rt → Core rt} {r : Except SubstrateError PUnit} (ht : Turns f m)
    (ha : Does HostCollided (Accounts (.close ms)) m) (hd : Core.Does h.core d (f h.core))
    (hm : d.marks = ms) (he : m.exec h = some (r, h')) :
    Unless HostCollided (Performs [d]) h h' := by
  refine (ha.within _ _ _ he).imp fun hacc => performs_singleton ?_ ?_
  · rw [ht.within _ _ _ he]
    exact hd
  · rw [show account h' = _ from hacc, hm]
    rfl

theorem performs_rollBack {candidate : CandidateState} {reason complaint : String} {cycle : UInt64}
    {r : Except SubstrateError PUnit} (hc : h.server.migrationCandidate = some candidate)
    (he : (rollBack candidate.opName reason complaint cycle).exec h = some (r, h')) :
    Unless HostCollided (Performs [.rolledBack candidate]) h h' :=
  performs_closing turns_rollBack does_rollBack (.rolledBack hc) rfl he

theorem still_emitCycleValidated {op reason : String} {cycle : UInt64} {b : Bool} :
    Does HostCollided Still (emitCycleValidated op cycle b reason : Op env rt PUnit) :=
  does_still does_emitCycleValidated (leaves_emit
    (not_watched (p := migrationCycleValidatedPrefix) startsWith_append (by decide)))

theorem decideCycle_eq_commit {candidate : CandidateState} {cycle : UInt64}
    {outcome : DualValidationCycle} (hd : decideCycle candidate cycle outcome = some .commit) :
    outcome = .equivalent ∧ windowComplete candidate cycle = true := by
  cases outcome with
  | diverged => cases hd
  | equivalent =>
    rw [decideCycle] at hd
    split at hd
    · exact ⟨rfl, ‹_›⟩
    · cases hd

theorem decideCycle_eq_rollback {candidate : CandidateState} {cycle : UInt64} {reason : String}
    {outcome : DualValidationCycle}
    (hd : decideCycle candidate cycle outcome = some (.rollback reason)) : outcome = .diverged := by
  cases outcome with
  | diverged => rfl
  | equivalent =>
    rw [decideCycle] at hd
    split at hd <;> cases hd

theorem decideCycle_eq_none {candidate : CandidateState} {cycle : UInt64}
    {outcome : DualValidationCycle} (hd : decideCycle candidate cycle outcome = none) :
    outcome = .equivalent ∧ windowComplete candidate cycle = false := by
  cases outcome with
  | diverged => cases hd
  | equivalent =>
    rw [decideCycle] at hd
    split at hd
    · cases hd
    · exact ⟨rfl, Bool.eq_false_of_not_eq_true ‹_›⟩

/-- The migration in flight is judged. -/
theorem performs_runMigrationStep {response : AdvanceResponse rt}
    {r : Except SubstrateError PUnit} (he : (runMigrationStep response).exec h = some (r, h')) :
    Unless HostCollided (fun h h' => ∃ d, Verdict response.outcome d ∧ Performs [d] h h') h h' := by
  have hkeep : ∀ {h h' : Host env rt}, Core.Does h.core (.kept response.outcome) h.core →
      Still h h' → Performs [.kept response.outcome] h h' := fun hd hs =>
    Performs.trans_still (performs_singleton hd (by simp [Deed.marks])) hs
  rw [runMigrationStep, Prog.exec_get_bind] at he
  cases hm : h.server.migrationCandidate with
  | none =>
    rw [hm] at he
    cases he
    exact ⟨id, fun _ => ⟨_, .kept, hkeep (.kept fun c hc => absurd (hm.symm.trans hc) (by simp))
      (Std.Refl.refl (r := Still) h)⟩⟩
  | some candidate =>
    simp only [hm] at he
    cases hd : decideCycle candidate h.server.cycleCounter response.outcome with
    | none =>
      simp only [hd] at he
      have hkept : Core.Does h.core (.kept response.outcome) h.core := .kept fun c hc => by
        cases Option.some.inj (hm.symm.trans hc)
        exact decideCycle_eq_none hd
      split at he
      · exact (still_emitCycleValidated.within _ _ _ he).imp fun hs =>
          ⟨_, .kept, hkeep hkept hs⟩
      · cases he
        exact ⟨id, fun _ => ⟨_, .kept, hkeep hkept (Std.Refl.refl (r := Still) h)⟩⟩
    | some decision =>
      cases decision with
      | commit =>
        simp only [hd] at he
        obtain ⟨hout, hwindow⟩ := decideCycle_eq_commit hd
        exact (performs_closing turns_commitMigration does_commitMigration (.committed hm hwindow)
          rfl he).imp fun hp => ⟨_, .committed hout, hp⟩
      | rollback reason =>
        simp only [hd] at he
        obtain ⟨_, t, h1, h2⟩ := turns_emitCycleValidated.succeeds.exec_bind he
        have hstill := still_emitCycleValidated.within _ _ _ h1
        have hcand : t.server.migrationCandidate = some candidate :=
          (congrArg Core.migrationCandidate (turns_emitCycleValidated.within _ _ _ h1)).trans hm
        exact hstill.trans (performs_rollBack hcand h2) fun hs hp =>
          ⟨_, .rolledBack (decideCycle_eq_rollback hd), hs.append hp⟩

/-- A cycle that is answered is done as a whole, and one that fails is not done at all. -/
theorem performs_runCycle {r : Except SubstrateError (AdvanceResponse rt)}
    (he : runCycle.exec h = some (r, h')) :
    Unless HostCollided (PerformsOne (Answers Cycles r)) h h' := by
  rw [runCycle_eq, countCycle, bind_assoc] at he
  rcases Prog.exec_bind_eq_some.1 he with ⟨e, h1, rfl⟩ | ⟨response, t, h1, h2⟩
  · refine (performs_handleAdvance h1).imp ?_
    rintro (⟨_, _, hr, -⟩ | ⟨_, -, hhalts⟩)
    · cases hr
    · exact hhalts
  simp only [bind_assoc, pure_bind] at h2
  rw [Prog.exec_get_bind] at h2
  obtain ⟨u, h3, hcounted⟩ := performs_sealing (d := .counted) .counted rfl h2
  obtain ⟨x, v, h4, h5⟩ := succeeds_attempt.exec_bind h3
  obtain ⟨y, h6, hx⟩ := Prog.exec_attempt_eq_some.1 h4
  cases h5
  have hadvanced : Unless HostCollided (fun h t => ∃ report : AdvanceReport rt,
      response.outcome = report.outcome ∧ Performs [.advanced report] h t) h t := by
    refine (performs_handleAdvance h1).imp ?_
    rintro (⟨_, report, hr, hout, hp⟩ | ⟨_, hr, -⟩)
    · cases hr
      exact ⟨report, hout, hp⟩
    · cases hr
  have hjudged := hcounted.trans (performs_runMigrationStep h6) (T := fun t h' => ∃ n d,
      IsNode cycleAdvancedType (encodeCycleAdvanced t.server.cycleCounter
        (saturatingAdd t.server.cycleCounter 1)) n ∧ Verdict response.outcome d ∧
      Performs [.counted, .recorded n, d] t h') (by
    rintro ⟨n, hn, hp1⟩ ⟨d, hd, hp2⟩
    exact ⟨n, d, hn, hd, hp1.append hp2⟩)
  refine hadvanced.trans hjudged ?_
  rintro ⟨report, hout, hp1⟩ ⟨n, d, hn, hd, hp2⟩
  exact ⟨_, .mk hn (hout ▸ hd), hp1.append hp2⟩

theorem performs_advance {r : Except SubstrateError (AdvanceResponse rt)}
    (he : advance.exec h = some (r, h')) :
    Unless HostCollided (PerformsOne (Answers Cycles r)) h h' := by
  rw [advance, Prog.exec_get_bind] at he
  split at he
  · cases he
    exact ⟨id, fun _ => ⟨[], .nothing, Std.Refl.refl (r := Still) h⟩⟩
  · exact performs_runCycle he

end

/-! ### Ticking -/

/-- The migration in flight is rolled back, or nothing is done. -/
inductive RollsBack : List (Deed rt) → Prop
  | nothing : RollsBack []
  | rolledBack {candidate : CandidateState} : RollsBack [.rolledBack candidate]

inductive Drives : List (Deed rt) → Prop
  | idle : Drives []
  | pended : Drives [.pended]
  | cycled {ds es : List (Deed rt)} : Flushes ds → (Cycles es ∨ Halts es) → Drives (ds ++ es)

/-- What a tick does. -/
inductive Ticks : List (Deed rt) → Prop
  | mk {ds es : List (Deed rt)} : Drives ds → RollsBack es → Ticks (ds ++ es)

section

variable {h h' : Host env rt}

theorem performs_forceMigrationRollback {candidate : CandidateState} {reason : String}
    {r : Except SubstrateError PUnit} (hc : h.server.migrationCandidate = some candidate)
    (he : (forceMigrationRollback candidate.opName reason).exec h = some (r, h')) :
    Unless HostCollided (Performs [.rolledBack candidate]) h h' := by
  rw [forceMigrationRollback, Prog.exec_get_bind] at he
  simp only [hc, Option.isNone_some, Bool.false_eq_true, if_false] at he
  exact performs_rollBack hc he

theorem performs_checkMigrationWindow {r : Except SubstrateError PUnit}
    (he : checkMigrationWindow.exec h = some (r, h')) :
    Unless HostCollided (PerformsOne RollsBack) h h' := by
  rw [checkMigrationWindow, Prog.exec_get_bind] at he
  cases hm : h.server.migrationCandidate with
  | none =>
    rw [hm] at he
    cases he
    exact ⟨id, fun _ => ⟨[], .nothing, Std.Refl.refl (r := Still) h⟩⟩
  | some candidate =>
    simp only [hm] at he
    split at he
    · obtain ⟨_, t, h1, h2⟩ := turns_immune.succeeds.exec_bind he
      have hwarned := does_still_immune.within _ _ _ h1
      have hmark : Does HostCollided Still (onServer (modify fun s : ServerState env =>
          { s with lastMigrationWindowExceededEmittedAtCycle := some h.server.cycleCounter }) :
            Op env rt PUnit) :=
        does_still (does_setting (fun _ => rfl) fun _ => rfl)
          (leaves_onServer (aside_modify (fun _ => rfl) fun _ => rfl))
      have hcand : t.server.migrationCandidate = some candidate :=
        (congrArg Core.migrationCandidate (turns_immune.within _ _ _ h1)).trans hm
      rcases Prog.exec_bind_eq_some.1 h2 with ⟨e, h3, -⟩ | ⟨_, u, h3, h4⟩
      · obtain ⟨s, h5, -⟩ := exec_onServer.1 h3
        cases h5
      have hkept : u.server.migrationCandidate = some candidate := by
        obtain ⟨s, h5, rfl⟩ := exec_onServer.1 h3
        cases h5
        exact hcand
      have hstill := hwarned.trans (hmark.within _ _ _ h3) (T := Still) (IsTrans.trans _ _ _)
      exact hstill.trans (performs_forceMigrationRollback hkept h4) fun hs hp =>
        ⟨_, .rolledBack, hs.append hp⟩
    · cases he
      exact ⟨id, fun _ => ⟨[], .nothing, Std.Refl.refl (r := Still) h⟩⟩

theorem performs_selfDrive {r : Except SubstrateError PUnit} (he : selfDrive.exec h = some (r, h')) :
    Unless HostCollided (PerformsOne Drives) h h' := by
  rw [selfDrive, Prog.exec_get_bind] at he
  dsimp only at he
  split at he
  · rename_i hinert
    have hnone : h.core.migrationCandidate = none := by
      have hinert := hinert.1
      simp only [isProvablyInertForBatch, Bool.and_eq_true, Option.isNone_iff_eq_none] at hinert
      exact hinert.1.1.2
    exact (performs_modify he rfl (.pended hnone) rfl rfl).imp fun ⟨_, hp⟩ => ⟨_, .pended, hp⟩
  · obtain ⟨x, t, h1, h2⟩ := succeeds_attempt.exec_bind he
    obtain ⟨y, h3, hx⟩ := Prog.exec_attempt_eq_some.1 h1
    obtain ⟨x', u, h4, h5⟩ := succeeds_attempt.exec_bind h2
    obtain ⟨y', h6, hx'⟩ := Prog.exec_attempt_eq_some.1 h4
    cases h5
    refine (performs_flush.within _ _ _ h3).trans (performs_runCycle h6) ?_
    rintro ⟨ds, hds, hp1⟩ ⟨es, hes, hp2⟩
    refine ⟨ds ++ es, .cycled hds ?_, hp1.append hp2⟩
    cases y' with
    | ok _ => exact .inl hes
    | error _ => exact .inr hes

theorem succeeds_selfDrive : Succeeds (selfDrive : Op env rt PUnit) := by
  intro h r h' he
  rw [selfDrive, Prog.exec_get_bind] at he
  dsimp only at he
  split at he
  · obtain ⟨s, h1, -⟩ := exec_onServer.1 he
    cases h1
    exact ⟨_, rfl⟩
  · exact succeeds_bind succeeds_attempt (fun _ => succeeds_bind succeeds_attempt fun _ =>
      succeeds_pure) _ _ _ he

theorem performs_autonomousTick {selfDriven : Bool} {r : Except SubstrateError PUnit}
    (he : (autonomousTick selfDriven).exec h = some (r, h')) :
    Unless HostCollided (PerformsOne Ticks) h h' := by
  rw [autonomousTick, Prog.exec_get_bind] at he
  dsimp only at he
  split at he
  · obtain ⟨_, t, h1, h2⟩ := succeeds_selfDrive.exec_bind he
    exact (performs_selfDrive h1).trans (performs_checkMigrationWindow h2) fun ⟨ds, hds, hp1⟩
      ⟨es, hes, hp2⟩ => ⟨_, .mk hds hes, hp1.append hp2⟩
  · exact (performs_checkMigrationWindow he).imp fun ⟨es, hes, hp⟩ => ⟨_, .mk .idle hes, hp⟩

end

/-! ### Submitting -/

/-- A schema evolution in this mode, of this content. -/
structure Applies (q : Message) (migrationMode : Bool) (content : Bytes) : Prop where
  mutationType : earlyMutationType q = schemaEvolutionType
  mode : readMigrationMode q.payload = .ok migrationMode
  content_eq : OrdMap.get "content_canonical_bytes" q.payload = some (.bytes content)

/-- Only marks are written, and none of a commit. -/
def Notes (ds : List (Deed rt)) : Prop :=
  ∀ d ∈ ds, ∃ ms, d = .noted ms ∧ ∀ op, Mark.committed op ∉ ms

/-- What a submission does. -/
inductive Submits (q : Message) : List (Deed rt) → Prop
  | halts {ds : List (Deed rt)} : Halts ds → Submits q ds
  | other {ds es : List (Deed rt)} : Notes ds → RollsBack es → Submits q (ds ++ es)
  | evolved {content : Bytes} {ds : List (Deed rt)} : Applies q false content → Notes ds →
      Submits q (.evolved content :: ds)
  | built {content : Bytes} : Applies q true content → Submits q [.built content]
  | opened {content : Bytes} {candidate : CandidateState} : Applies q true content →
      candidate.schemaDiffCanonicalBytes = content → Submits q [.built content, .opened candidate]

section

variable {report : MutationReport} {r : Ruling} {h h' : Host env rt}

theorem heedless_replayed : replayed.Heedless := ⟨by decide, fun _ _ => rfl, fun _ _ => rfl⟩

theorem Notes.nil : Notes ([] : List (Deed rt)) := by simp [Notes]

theorem Notes.append {ds es : List (Deed rt)} (h1 : Notes ds) (h2 : Notes es) : Notes (ds ++ es) :=
  List.forall_mem_append.2 ⟨h1, h2⟩

theorem performs_noted {ms : List Mark} (hk : h'.core = h.core)
    (ha : Accounts (.write ms) h h') : Performs [.noted ms] h h' := by
  refine performs_singleton ?_ ?_
  · rw [hk]
    exact .noted
  · rw [show account h' = _ from ha]
    rfl

theorem notes_of_does {α : Type} (ms : List Mark) {m : Op env rt α}
    (hms : ∀ op, Mark.committed op ∉ ms) (h1 : Does HostCollided (Accounts (.write ms)) m)
    (h2 : Within (Leaves replayed) m) : Does HostCollided (PerformsOne Notes) m :=
  (Does.and h1 h2).mono fun _ _ h => ⟨[.noted ms], by simpa [Notes] using hms,
    performs_noted h.2.keeps h.1⟩

theorem notes_of_still {α : Type} {m : Op env rt α} (h : Does HostCollided Still m) :
    Does HostCollided (PerformsOne Notes) m := h.mono fun _ _ hs => ⟨[], .nil, hs⟩

theorem notes_recordEvolution : Does HostCollided (PerformsOne Notes)
    (recordEvolution report : Op env rt (Option NodeHash)) := by
  cases ha : report.schemaApplyAttempted with
  | false =>
    have hpure : (recordEvolution report : Op env rt (Option NodeHash)) = pure none := by
      rw [recordEvolution, ha]
      rfl
    rw [hpure]
    exact notes_of_still (does_pure fun h => Std.Refl.refl (r := Still) h)
  | true =>
    refine notes_of_does _ (by simp) (does_recordEvolution ha) ?_
    rw [recordEvolution, if_pos ha]
    exact within_map (leaves_insertEvent not_watched_evolution)

theorem notes_migrate (h : (r.accepted && report.migrationMode) = false ∨
    report.candidateBuilt = false) :
    Does HostCollided (PerformsOne Notes) (migrate report r : Op env rt _) := by
  cases hboth : r.accepted && report.migrationMode with
  | false =>
    rw [migrate, hboth]
    exact notes_of_still (does_pure fun h => Std.Refl.refl (r := Still) h)
  | true =>
    have hunbuilt : report.candidateBuilt = false := by
      rcases h with h | h
      · rw [hboth] at h
        cases h
      · exact h
    refine notes_of_does [.rolledBack report.schemaApplyOp, .evolved report.schemaApplyOp false]
      (by simp) ?_ ?_
    · have hf : Account.migrated report = .write [.rolledBack report.schemaApplyOp,
          .evolved report.schemaApplyOp false] := by simp [Account.migrated, hunbuilt]
      exact hf ▸ does_migrate hboth
    · rw [migrate, if_pos hboth, hunbuilt]
      have hrolled : ¬ Watched replayed.texts (migrationRolledBackPrefix ++ report.schemaApplyOp) :=
        not_watched startsWith_append (by decide)
      exact within_bind (within_bind within_get fun _ => within_bind (leaves_insertEvent hrolled)
        fun _ => within_bind (leaves_insertEvent not_watched_evolution) fun _ => within_pure)
        fun _ => within_pure

theorem does_still_abortMigration (ht : report.mutationType ≠ "abort_migration") :
    Does HostCollided Still (abortMigration report r : Op env rt PUnit) := by
  intro h a h' he
  rw [abortMigration, Prog.exec_get_bind] at he
  cases hc : h.server.migrationCandidate with
  | none =>
    rw [hc] at he
    cases he
    exact ⟨id, fun _ => ⟨⟨_, rfl⟩, Std.Refl.refl (r := Still) h⟩⟩
  | some candidate =>
    simp only [hc] at he
    rw [if_neg (by simp [ht])] at he
    cases he
    exact ⟨id, fun _ => ⟨⟨_, rfl⟩, Std.Refl.refl (r := Still) h⟩⟩

theorem performs_abortMigration :
    Does HostCollided (PerformsOne RollsBack) (abortMigration report r : Op env rt PUnit) := by
  intro h a h' he
  rw [abortMigration, Prog.exec_get_bind] at he
  cases hc : h.server.migrationCandidate with
  | none =>
    rw [hc] at he
    cases he
    exact ⟨id, fun _ => ⟨⟨_, rfl⟩, [], .nothing, Std.Refl.refl (r := Still) h⟩⟩
  | some candidate =>
    simp only [hc] at he
    split at he
    · obtain ⟨x, u, h1, h2⟩ := succeeds_attempt.exec_bind he
      obtain ⟨y, h3, hx⟩ := Prog.exec_attempt_eq_some.1 h1
      cases hx
      obtain ⟨⟨z, rfl⟩, -⟩ := forceMigrationRollback_exec h3
      cases h2
      exact (performs_forceMigrationRollback hc h3).imp fun hp =>
        ⟨⟨_, rfl⟩, _, .rolledBack, hp⟩
    · cases he
      exact ⟨id, fun _ => ⟨⟨_, rfl⟩, [], .nothing, Std.Refl.refl (r := Still) h⟩⟩

/-- A window is opened for the content. -/
inductive Opens (content : Bytes) : List (Deed rt) → Prop
  | mk {candidate : CandidateState} : candidate.schemaDiffCanonicalBytes = content →
      Opens content [.opened candidate]

theorem performs_openWindow : Does HostCollided (fun h h' => h.core.migrationCandidate = none →
    PerformsOne (Opens report.contentCanonicalBytes) h h')
    (openWindow report : Op env rt NodeHash) := by
  intro h r h' he
  have haccount := does_openWindow h r h' he
  rw [openWindow] at he
  rcases Prog.exec_bind_eq_some.1 he with ⟨e, h1, -⟩ | ⟨now, t, h1, h2⟩
  · obtain ⟨s, h3, -⟩ := exec_onServer.1 h1
    cases h3
  have hread : t.core = h.core :=
    (leaves_onServer aside_readClock _ _ _ h1 : Leaves replayed h t).keeps
  rw [Prog.exec_get_bind] at h2
  rcases Prog.exec_bind_eq_some.1 h2 with ⟨e, h3, -⟩ | ⟨_, u, h3, h4⟩
  · obtain ⟨s, h5, -⟩ := exec_onServer.1 h3
    cases h5
  obtain ⟨s, h5, rfl⟩ := exec_onServer.1 h3
  cases h5
  have hinserted : h'.core = _ := (leaves_insertEvent (W := replayed)
    (not_watched (p := migrationStartedPrefix) startsWith_append (by decide)) _ _ _ h4).keeps
  let candidate : CandidateState := ⟨report.contentCanonicalBytes, report.schemaApplyOp,
    t.server.cycleCounter, defaultDualValidationWindowCycles, now, .validating⟩
  have hopens : @Opens rt report.contentCanonicalBytes [.opened candidate] := .mk rfl
  refine haccount.imp fun ⟨ha, hacc⟩ => ⟨ha, fun hnone => ⟨_, hopens, performs_singleton ?_ ?_⟩⟩
  · rw [hinserted, ← hread]
    exact .opened (hread ▸ hnone) rfl rfl
  · rw [show account h' = _ from hacc]
    rfl

theorem performs_migrate_built (h : (r.accepted && report.migrationMode) = true)
    (hb : report.candidateBuilt = true) :
    Does HostCollided (fun h h' => h.core.migrationCandidate = none →
      PerformsOne (Opens report.contentCanonicalBytes) h h') (migrate report r : Op env rt _) := by
  rw [migrate, if_pos h, hb]
  exact does_bind performs_openWindow (fun _ => does_pure (R := Eq) fun _ => rfl)
    fun s t u h1 h2 => h2 ▸ h1

/-- What is recorded first does nothing. -/
theorem still_record {E M A T : Host env rt → Host env rt → Prop}
    (hE : Does HostCollided E (recordEvolution report)) (hM : Does HostCollided M (migrate report r))
    (hA : Does HostCollided A (abortMigration report r))
    (hT : ∀ h s t u h', Still h s → E s t → M t u → A u h' → T h h') :
    Does HostCollided T (record report r : Op env rt Recorded) :=
  does_record_of (does_still does_recordMutation heedless_replayed.recordMutation)
    (does_still does_commitBackupEncryptionStatus heedless_replayed.commitBackupEncryptionStatus)
    (does_still does_commitOwnerObjective heedless_replayed.commitOwnerObjective)
    (does_still does_recordCompression heedless_replayed.recordCompression) hE hM hA hT

/-- What is recorded where no candidate was built. -/
theorem performs_record_unbuilt (hb : report.candidateBuilt = false) : Does HostCollided
    (fun h h' => ∃ ds es : List (Deed rt), Notes ds ∧ RollsBack es ∧
      (report.mutationType ≠ "abort_migration" → es = []) ∧ Performs (ds ++ es) h h')
    (record report r : Op env rt Recorded) := by
  by_cases ht : report.mutationType = "abort_migration"
  · refine still_record notes_recordEvolution (notes_migrate (.inr hb)) performs_abortMigration ?_
    rintro h s t u h' h1 ⟨ds, hds, h2⟩ ⟨es, hes, h3⟩ ⟨fs, hfs, h4⟩
    exact ⟨ds ++ es, fs, hds.append hes, hfs, fun hne => absurd ht hne,
      h1.append ((h2.append h3).append h4)⟩
  · refine still_record notes_recordEvolution (notes_migrate (.inr hb))
      (does_still_abortMigration ht) ?_
    rintro h s t u h' h1 ⟨ds, hds, h2⟩ ⟨es, hes, h3⟩ h4
    exact ⟨ds ++ es, [], hds.append hes, .nothing, fun _ => rfl,
      h1.append ((h2.append h3).append h4)⟩

/-- What is recorded where one was. -/
theorem performs_record_built (ht : report.mutationType ≠ "abort_migration")
    (hatt : report.schemaApplyAttempted = false) (hmode : report.migrationMode = true)
    (hb : report.candidateBuilt = true) : Does HostCollided (fun h h' =>
      (r.accepted = true → h.core.migrationCandidate = none) →
      Still h h' ∨ PerformsOne (Opens report.contentCanonicalBytes) h h')
    (record report r : Op env rt Recorded) := by
  have hpure : (recordEvolution report : Op env rt (Option NodeHash)) = pure none := by
    rw [recordEvolution, hatt]
    rfl
  have hE : Does HostCollided Still (recordEvolution report : Op env rt (Option NodeHash)) := by
    rw [hpure]
    exact does_pure fun h => Std.Refl.refl (r := Still) h
  cases hacc : r.accepted with
  | false =>
    have hM : Does HostCollided Still (migrate report r : Op env rt _) := by
      rw [migrate, hacc]
      exact does_pure fun h => Std.Refl.refl (r := Still) h
    exact still_record hE hM (does_still_abortMigration ht) fun h s t u h' h1 h2 h3 h4 _ =>
      .inl (h1.append (h2.append (h3.append h4)))
  | true =>
    refine still_record hE (performs_migrate_built (by rw [hacc, hmode]; rfl) hb)
      (does_still_abortMigration ht) fun h s t u h' h1 h2 h3 h4 hnone => ?_
    have hfree : t.core.migrationCandidate = none := by
      rw [h2.core_eq, h1.core_eq]
      exact hnone rfl
    obtain ⟨ds, hds, hp⟩ := h3 hfree
    exact .inr ⟨ds, hds, (h1.append (h2.append hp)).trans_still h4⟩

theorem performs_submit {q : Message} {x : Except SubstrateError Submission}
    (he : (submit q.payload).exec h = some (x, h')) :
    Unless HostCollided (PerformsOne (Submits q)) h h' := by
  rw [submit] at he
  rcases Prog.exec_bind_eq_some.1 he with ⟨e, h1, -⟩ | ⟨reply, t, h1, h2⟩
  · refine (halts_of_callPython h1).imp ?_
    rintro ⟨ds, hds, hp⟩
    exact ⟨ds, .halts hds, hp⟩
  rcases callPython_cases h1 with ⟨w, reply', w', hp, hd, hr, rfl⟩ | ⟨e', hr, -⟩
  · cases hr
    obtain ⟨report, rfl, hsub⟩ :=
      handleSubmitMutation_cases (show handleSubmitMutation w q.payload = .ok (reply, w') from hd)
    rcases Prog.exec_bind_eq_some.1 h2 with ⟨e, h3, -⟩ | ⟨r, t, h3, h4⟩
    · obtain ⟨r, hr, -⟩ := rule_exec h3
      cases hr
    obtain ⟨_, hr, hacc, hsame⟩ := rule_exec h3
    cases hr
    obtain ⟨y, h5⟩ := exec_of_bind_pure h4
    have hruled : Unless HostCollided Still { h with python := some w' } t :=
      still_of_spares (leaves_rule.mono fun _ _ => Leaves.spares) leaves_rule _ _ _ h3
    have hcand : r.accepted = true → report.migrationMode = true →
        t.core.migrationCandidate = none := fun ha hm => by
      obtain ⟨rfl, -⟩ := hsame ha
      exact (hacc.1 ha).single hm
    -- a worker that has done nothing leaves the host as it was
    have hidle : w' = w → report.candidateBuilt = false →
        Unless HostCollided (PerformsOne (Submits q)) h h' := by
      rintro rfl hb
      have hstart : Unless HostCollided Still h { h with python := some w' } :=
        ⟨id, fun _ => performs_nil (by rw [← hp]) rfl⟩
      refine (hstart.trans hruled (T := Still) (IsTrans.trans _ _ _)).trans
        ((performs_record_unbuilt hb).within _ _ _ h5) fun hs hrec => ?_
      obtain ⟨ds, es, hds, hes, -, hp'⟩ := hrec
      exact ⟨_, .other hds hes, hs.append hp'⟩
    by_cases ht : report.mutationType = schemaEvolutionType
    · have happlies : ∀ {b : Bool}, report.migrationMode = b →
          Applies q b report.contentCanonicalBytes := fun hb =>
        ⟨hsub.early.trans ht, hb ▸ hsub.mode, hsub.content⟩
      have hnot : report.mutationType ≠ "abort_migration" := by rw [ht]; decide
      have hev := hsub.evolves ht
      rcases evolve_cases hev with ⟨hw, hb, -⟩ | ⟨hmode, hb, -, hatt, g, hg, rfl⟩ |
        ⟨hmode, hb, -, g, hg, rfl⟩
      · exact hidle hw hb
      · have hdoes : Core.Does h.core (.built report.contentCanonicalBytes) _ :=
          @Core.Does.built _ _ _ _ report.schemaApplyOp _ hp hg
        have hfirst := performs_python hdoes rfl
        refine (hfirst.trans hruled Performs.trans_still).trans
          ((performs_record_built hnot hatt hmode hb).within _ _ _ h5) fun hs hrec => ?_
        rcases hrec fun ha => hcand ha hmode with hstill | ⟨ds, ⟨hdiff⟩, hp'⟩
        · exact ⟨_, .built (happlies hmode), hs.trans_still hstill⟩
        · exact ⟨_, .opened (happlies hmode) hdiff, hs.append hp'⟩
      · have hdoes : Core.Does h.core (.evolved report.contentCanonicalBytes) _ := .evolved hp hg
        have hfirst := performs_python hdoes rfl
        refine (hfirst.trans hruled Performs.trans_still).trans
          ((performs_record_unbuilt hb).within _ _ _ h5) fun hs hrec => ?_
        obtain ⟨ds, es, hds, -, hes, hp'⟩ := hrec
        rw [hes hnot, List.append_nil] at hp'
        exact ⟨_, .evolved (happlies hmode) hds, hs.append hp'⟩
    · obtain ⟨hw, hnone⟩ := hsub.idle ht
      exact hidle hw (congrArg EvolutionOutcome.candidateBuilt hnone)
  · cases hr

theorem performs_submitMutation {q : Message} {x : Except SubstrateError (Option Message)}
    (he : (handleSubmitMutationRequest q).exec h = some (x, h')) :
    Unless HostCollided (PerformsOne (Submits q)) h h' := by
  have hrefused : ∀ {detectorId detectorName evidence : String} {y : Except SubstrateError PUnit},
      (immune detectorId detectorName evidence).exec h = some (y, h') →
      Unless HostCollided (PerformsOne (Submits q)) h h' := fun h1 =>
    (does_still_immune.within _ _ _ h1).imp fun hs => ⟨[], .halts .nothing, hs⟩
  rw [handleSubmitMutationRequest] at he
  split at he
  · obtain ⟨y, h1⟩ := exec_of_bind_pure he
    exact hrefused h1
  · split at he
    · obtain ⟨y, h1⟩ := exec_of_bind_pure he
      exact hrefused h1
    · obtain ⟨y, h1⟩ := exec_of_bind_pure he
      exact performs_submit h1

end

/-! ### Steps -/

/-- The lists of deeds that an event may stand for. -/
def Event.Tells : Event → List (Deed rt) → Prop
  | .request (.registerAxis q) answer => Answers (Registers q.payload) answer
  | .request (.perturb q) answer => Answers (Perturbs q.payload) answer
  | .request (.perturbFromRaw q) answer => Answers (PerturbsFromRaw q.payload) answer
  | .request .advance answer => Answers Cycles answer
  | .request (.submitMutation q) _ => Submits q
  | .flush => Flushes
  | .tick _ => Ticks
  | .workerExit => Halts
  | _ => (· = [])

/-- The substrate is started, or the worker is. -/
def Event.Starts : Event → Prop
  | .hello => True
  | .restart _ => True
  | _ => False

theorem answers_of_bind_pure {α : Type} {P : List (Deed rt) → Prop} {m : Op env rt α}
    {answer : Except SubstrateError PUnit} {h h' : Host env rt}
    (hm : ∀ r, m.exec h = some (r, h') → Unless HostCollided (PerformsOne (Answers P r)) h h')
    (he : (m >>= fun _ => pure ⟨⟩).exec h = some (answer, h')) :
    Unless HostCollided (PerformsOne (Answers P answer)) h h' := by
  rcases Prog.exec_bind_eq_some.1 he with ⟨e, h1, rfl⟩ | ⟨a, t, h1, h2⟩
  · exact hm _ h1
  · cases h2
    exact hm _ h1

/-- Barring a collision, a step performs what its event tells. -/
theorem step_performs {m m' : Machine env rt} {e : Event} (hstep : Step m e m')
    (hstart : ¬ e.Starts) : Unless HostCollided (PerformsOne e.Tells) m.host m'.host := by
  cases hstep with
  | request hs hpending he =>
    rename_i q answer h
    cases q with
    | registerAxis q => exact answers_of_bind_pure (fun _ => performs_registerAxis) he
    | perturb q => exact answers_of_bind_pure (fun _ => performs_perturb) he
    | perturbFromRaw q => exact answers_of_bind_pure (fun _ => performs_perturbFromRaw) he
    | advance => exact answers_of_bind_pure (fun _ => performs_advance) he
    | submitMutation q =>
      obtain ⟨y, h1⟩ := exec_of_bind_pure he
      exact performs_submitMutation h1
  | flush he => exact performs_flush.within _ _ _ he
  | tick hs he => exact performs_autonomousTick he
  | other ha =>
    rename_i s
    have hs := @account_of_aside _ _ m.host { m.host with server := s }
      (ha.of_narrower migrations_narrower)
    have hk : Leaves replayed m.host { m.host with server := s } :=
      ⟨rfl, ha.of_narrower replayed_narrower⟩
    exact ⟨ha.collided, fun _ => ⟨[], rfl, performs_nil hk.keeps hs⟩⟩
  | save => exact ⟨id, fun _ => ⟨[], rfl, Std.Refl.refl (r := Still) m.host⟩⟩
  | workerExit => exact ⟨id, fun _ => ⟨_, .exited, performs_exited rfl rfl⟩⟩
  | hello _ _ _ => exact absurd trivial hstart
  | restart => exact absurd trivial hstart

end Myco.Tropism
