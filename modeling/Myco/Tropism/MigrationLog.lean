import Myco.Substrate.Snapshot
import Myco.Tropism.Brackets

/-!
# The log of migrations

Every step of a substrate takes the turn that is `Due` to it, or none, and so its log stays bracketed
over restarts (`migrations_bracketed`). There is one exception: the migration branch of
`handle_submit_mutation` does not ask for the type of the mutation, so a mutation of another type
that says it is a migration, and is accepted, is recorded as a migration that could not be built
(`Misflagged`).
-/

namespace Myco.Tropism

open Myco.Lib Myco.Canonical Myco.Schema Myco.Substrate Myco.Federation Myco.Prune

variable {env : Env} {rt : Runtime}

/-! ### Submitting -/

section

variable {h h' : Host env rt} {q : Message} {report : MutationReport}

/-- A schema evolution that the worker has answered, unless it was refused for the migration in
flight. -/
structure Attempts (h : Host env rt) (q : Message) (report : MutationReport) : Prop where
  mutationType : earlyMutationType q = schemaEvolutionType
  answered : ∃ w w', h.python = some w ∧
    dispatch w .submitMutation q.payload = .ok (.submitMutationResponse report, w')
  single : report.migrationMode = true → h.server.migrationCandidate = none

/-- The turn of an attempt. -/
def attemptTurn (report : MutationReport) : Turn :=
  if report.migrationMode then
    if report.candidateBuilt then .opened report.schemaApplyOp else .unbuilt report.schemaApplyOp
  else .applied report.schemaApplyOp report.schemaApplySucceeded

/-- An attempt takes its turn, and nothing else does but to abort the migration in flight. -/
def SubmissionDue (q : Message) (h h' : Host env rt) : Prop :=
  (∃ report, Attempts h q report ∧ Takes (attemptTurn report) h h') ∨
  (¬ ∃ report, Attempts h q report) ∧
    (SameAccount h h' ∨
      earlyMutationType q = "abort_migration" ∧ ∃ op, Takes (.rolledBack op) h h')

/-- A mutation of another type that says it is a migration, and will be accepted. -/
structure Misflagged (h : Host env rt) (q : Message) : Prop where
  mutationType : earlyMutationType q ≠ schemaEvolutionType
  unrefused : isCultivatorPreserveAllAttempt (earlyMutationType q) = false ∧
    isCultivationOrphanedSuppressionAttempt (earlyMutationType q) = false
  worker : h.python.isSome
  flagged : readMigrationMode q.payload = .ok true
  graded : ∃ mutation, envelope? q.payload = some mutation ∧ classify mutation ≠ .untyped
  single : h.server.migrationCandidate = none
  admissible : ∃ content, OrdMap.get "content_canonical_bytes" q.payload = some (.bytes content) ∧
    Admissible rt h.server (earlyMutationType q) content

theorem Submitted.early {w w' : DispatcherState rt} (hs : Submitted w q.payload report w') :
    earlyMutationType q = report.mutationType := by
  rw [earlyMutationType, string?_eq hs.mutationType]
  rfl

/-- A schema evolution is admissible, whatever it says. -/
theorem admissible_schemaEvolution {s : ServerState env} {content : Bytes} :
    Admissible rt s schemaEvolutionType content where
  backup := fun ht => absurd ht (by decide)
  objective := fun ht => absurd ht (by decide)
  compression := fun ht => absurd ht (by decide)

theorem callPython_ok {w w' : DispatcherState rt} {t : MessageType} {payload : Payload}
    {reply : Reply rt} (hp : h.python = some w) (hd : dispatch w t payload = .ok (reply, w')) :
    (callPython t payload).exec h = some (.ok reply, { h with python := some w' }) := by
  rw [callPython, Prog.exec_get_bind]
  simp only [hp, hd]
  rfl

/-- What is recorded of an attempt that is accepted. -/
theorem does_record_attempt {r : Ruling} (ht : report.mutationType = schemaEvolutionType)
    (hacc : r.accepted = true) (hatt : report.schemaApplyAttempted = !report.migrationMode) :
    Does HostCollided (fun h h' => (report.migrationMode = true → (account h).inFlight = none) →
      Takes (attemptTurn report) h h') (record report r : Op env rt Recorded) := by
  have hkeep : ∀ u h' : Host env rt, MayAbort report u h' → SameAccount u h' := by
    rintro u h' (hs | ⟨ha, -⟩)
    · exact hs
    · rw [ht] at ha
      exact absurd ha (by decide)
  cases hmode : report.migrationMode with
  | false =>
    rw [hmode] at hatt
    refine does_record (does_recordEvolution hatt) (does_migrate_none (by simp [hmode]))
      fun h s t u h' h1 h2 h3 h4 _ => ?_
    have hturn : attemptTurn report = .applied report.schemaApplyOp report.schemaApplySucceeded := by
      simp [attemptTurn, hmode]
    have htake : Takes (attemptTurn report) s t :=
      hturn ▸ takes_of_accounts h2 rfl .applied rfl
    exact ((htake.of_same h1).trans_same h3).trans_same (hkeep u h' h4)
  | true =>
    rw [hmode] at hatt
    refine does_record (does_recordEvolution_none hatt) (does_migrate (by simp [hacc, hmode]))
      fun h s t u h' h1 h2 h3 h4 hnone => ?_
    have h0 : account t = account h := Eq.trans h2 h1
    have hfree : (account t).inFlight = none := by rw [h0]; exact hnone rfl
    have htake : Takes (attemptTurn report) t u := by
      cases hb : report.candidateBuilt with
      | true =>
        have hturn : attemptTurn report = .opened report.schemaApplyOp := by
          simp [attemptTurn, hmode, hb]
        have hf : Account.migrated report = .openWindow report.schemaApplyOp := by
          simp [Account.migrated, hb]
        rw [hf] at h3
        exact hturn ▸ takes_of_accounts h3 rfl (hfree ▸ .opened) rfl
      | false =>
        have hturn : attemptTurn report = .unbuilt report.schemaApplyOp := by
          simp [attemptTurn, hmode, hb]
        have hf : Account.migrated report =
            .write [.rolledBack report.schemaApplyOp, .evolved report.schemaApplyOp false] := by
          simp [Account.migrated, hb]
        rw [hf] at h3
        refine hturn ▸ takes_of_accounts h3 rfl ?_ rfl
        rw [show (Account.write _ (account t)).inFlight = (account t).inFlight from rfl, hfree]
        exact .unbuilt
    exact (htake.of_same h0).trans_same (hkeep u h' h4)

/-- What is recorded of anything else. -/
theorem does_record_other {r : Ruling} (hatt : report.schemaApplyAttempted = false)
    (hmig : (r.accepted && report.migrationMode) = false) :
    Does HostCollided (MayAbort report) (record report r : Op env rt Recorded) := by
  refine does_record (does_recordEvolution_none hatt) (does_migrate_none hmig)
    fun h s t u h' h1 h2 h3 h4 => ?_
  have h0 : SameAccount h u := same_same _ _ _ (same_same _ _ _ h1 h2) h3
  rcases h4 with h4 | ⟨ht, op, h4⟩
  · exact .inl (same_same _ _ _ h0 h4)
  · exact .inr ⟨ht, op, h4.of_same h0⟩

theorem not_attempts_of_error {e : SubstrateError} {t : Host env rt}
    (he : (callPython .submitMutation q.payload).exec h = some (.error e, t)) :
    ¬ ∃ report : MutationReport, Attempts h q report := by
  rintro ⟨report, ha⟩
  obtain ⟨w, w', hp, hd⟩ := ha.answered
  rw [callPython_ok hp hd] at he
  cases he

/-- What follows a pure ending is what was there before it. -/
theorem exec_of_bind_pure {α β : Type} {m : Op env rt α} {k : α → β} {x : Except SubstrateError β}
    (he : (m >>= fun a => pure (k a)).exec h = some (x, h')) : ∃ y, m.exec h = some (y, h') := by
  rcases Prog.exec_bind_eq_some.1 he with ⟨e, h1, -⟩ | ⟨a, t, h1, h2⟩
  · exact ⟨_, h1⟩
  · cases h2
    exact ⟨_, h1⟩

theorem submit_due {x : Except SubstrateError Submission} (hflag : ¬ Misflagged h q)
    (hunrefused : isCultivatorPreserveAllAttempt (earlyMutationType q) = false ∧
      isCultivationOrphanedSuppressionAttempt (earlyMutationType q) = false)
    (he : (submit q.payload).exec h = some (x, h')) :
    Unless HostCollided (SubmissionDue q) h h' := by
  rw [submit] at he
  rcases Prog.exec_bind_eq_some.1 he with ⟨e, h1, -⟩ | ⟨reply, t, h1, h2⟩
  · rcases callPython_cases h1 with ⟨w, reply, w', -, -, hr, -⟩ | ⟨e', -, hserver, -⟩
    · cases hr
    · have hsame : SameAccount h h' := by
        show account h' = account h
        rw [account, hserver]
        rfl
      exact ⟨fun hc => by rwa [HostCollided, hserver], fun _ =>
        .inr ⟨not_attempts_of_error h1, .inl hsame⟩⟩
  rcases callPython_cases h1 with ⟨w, reply', w', hp, hd, hr, rfl⟩ | ⟨e', hr, -⟩
  · cases hr
    obtain ⟨report, rfl, hsub⟩ :=
      handleSubmitMutation_cases (show handleSubmitMutation w q.payload = .ok (reply, w') from hd)
    rcases Prog.exec_bind_eq_some.1 h2 with ⟨e, h3, -⟩ | ⟨r, t, h3, h4⟩
    · obtain ⟨r, hr, -⟩ := rule_exec h3
      cases hr
    obtain ⟨_, hr, hacc, hsame⟩ := rule_exec h3
    cases hr
    obtain ⟨y, h5⟩ := exec_of_bind_pure h4
    have hruled : Unless HostCollided SameAccount { h with python := some w' } t :=
      unless_of_spares (leaves_rule.mono fun _ _ => Leaves.spares) _ _ _ h3
    have hstart : Unless HostCollided SameAccount h { h with python := some w' } :=
      ⟨id, fun _ => rfl⟩
    -- what is no attempt may still abort
    have hother : report.schemaApplyAttempted = false →
        (r.accepted && report.migrationMode) = false →
        (¬ ∃ report : MutationReport, Attempts h q report) →
        Unless HostCollided (SubmissionDue q) h h' := by
      intro hatt hmig hnot
      refine ((hstart.trans hruled (same_same _ _ _)).trans
        ((does_record_other hatt hmig).within _ _ _ h5)) fun h6 h7 => .inr ⟨hnot, ?_⟩
      rcases h7 with h7 | ⟨ht, op, h7⟩
      · exact .inl (same_same _ _ _ h6 h7)
      · exact .inr ⟨hsub.early.trans ht, op, h7.of_same h6⟩
    by_cases ht : report.mutationType = schemaEvolutionType
    · have hatt : report.schemaApplyAttempted = !report.migrationMode :=
        evolve_attempted (hsub.evolves ht)
      by_cases hs : report.migrationMode = true → h.server.migrationCandidate = none
      · have haccd : r.accepted = true :=
          hacc.2 ⟨hsub.accepted ht, hs, ht ▸ admissible_schemaEvolution⟩
        obtain ⟨rfl, -⟩ := hsame haccd
        refine hstart.trans ((does_record_attempt ht haccd hatt).within _ _ _ h5) fun h6 h7 => ?_
        refine .inl ⟨report, ⟨hsub.early.trans ht, ⟨w, w', hp, hd⟩, hs⟩, (h7 fun hm => ?_).of_same h6⟩
        simp [account, hs hm]
      · rw [Classical.not_imp] at hs
        refine hother (by rw [hatt, hs.1]; rfl) ?_ ?_
        · cases ha : r.accepted with
          | false => rfl
          | true => exact absurd ((hacc.1 ha).single hs.1) hs.2
        · rintro ⟨report', ha⟩
          obtain ⟨v, v', hp', hd'⟩ := ha.answered
          rw [hp] at hp'
          cases hp'
          rw [hd] at hd'
          cases hd'
          exact hs.2 (ha.single hs.1)
    · have hidle := (hsub.idle ht).2
      have hatt : report.schemaApplyAttempted = false :=
        congrArg EvolutionOutcome.schemaApplyAttempted hidle
      have hnot : ¬ ∃ report : MutationReport, Attempts h q report := by
        rintro ⟨_, ha⟩
        exact ht (hsub.early.symm.trans ha.mutationType)
      cases hboth : r.accepted && report.migrationMode with
      | false => exact hother hatt hboth hnot
      | true =>
        obtain ⟨haccd, hmode⟩ := Bool.and_eq_true_iff.1 hboth
        have hup := hacc.1 haccd
        obtain ⟨mutation, henv, -, hgrade⟩ := hsub.graded
        refine absurd ⟨fun he => ht (hsub.early.symm.trans he), hunrefused, by rw [hp]; rfl,
          hmode ▸ hsub.mode, ⟨mutation, henv, ?_⟩, hup.single hmode, _, hsub.content, ?_⟩ hflag
        · exact of_decide_eq_true (hgrade.symm.trans hup.accepted)
        · rw [hsub.early]
          exact hup.admissible
  · cases hr

theorem submission_due {x : Except SubstrateError (Option Message)} (hflag : ¬ Misflagged h q)
    (he : (handleSubmitMutationRequest q).exec h = some (x, h')) :
    Unless HostCollided (SubmissionDue q) h h' := by
  have hrefused : ∀ {c : Bool}, c = true → (earlyMutationType q = schemaEvolutionType → c = false) →
      ¬ ∃ report : MutationReport, Attempts h q report := by
    rintro c hc hne ⟨report, ha⟩
    exact absurd hc (by simp [hne ha.mutationType])
  rw [handleSubmitMutationRequest] at he
  split at he
  · rename_i hc
    obtain ⟨y, h1⟩ := exec_of_bind_pure he
    exact (does_immune.within _ _ _ h1).imp fun hs =>
      .inr ⟨hrefused hc fun ht => by rw [ht]; decide, .inl hs⟩
  · rename_i hc1
    split at he
    · rename_i hc
      obtain ⟨y, h1⟩ := exec_of_bind_pure he
      exact (does_immune.within _ _ _ h1).imp fun hs =>
        .inr ⟨hrefused hc fun ht => by rw [ht]; decide, .inl hs⟩
    · rename_i hc2
      obtain ⟨y, h1⟩ := exec_of_bind_pure he
      exact submit_due hflag ⟨Bool.eq_false_of_not_eq_true hc1, Bool.eq_false_of_not_eq_true hc2⟩ h1

end

/-! ### Steps -/

section

variable {h h' : Host env rt}

theorem timeless_migrations : migrations.Timeless :=
  ⟨by decide, fun _ _ => rfl, fun _ _ => rfl, fun _ _ => rfl⟩

theorem migrations_narrower : migrations.Narrower vital where
  texts := by decide
  see s s' h := by
    simp only [vital, Prod.mk.injEq] at h
    simp only [migrations, h]

theorem mayClose_runCycle :
    Within (Unless HostCollided MayClose) (runCycle : Op env rt (AdvanceResponse rt)) := by
  rw [runCycle_eq]
  refine within_bind ((unless_of_spares timeless_migrations.countCycle).mono fun _ _ hu =>
    hu.imp .inl) fun response => ?_
  exact within_bind (within_attempt mayClose_runMigrationStep) fun _ => within_pure

theorem mayClose_advance :
    Within (Unless HostCollided MayClose) (advance : Op env rt (AdvanceResponse rt)) := by
  refine within_bind within_get fun h => ?_
  split
  · exact within_throw
  · exact mayClose_runCycle

theorem mayClose_autonomousTick {selfDriven : Bool} :
    Within (Unless HostCollided MayClose) (autonomousTick selfDriven : Op env rt PUnit) := by
  have hsame : ∀ {α : Type} {m : Op env rt α}, Within (Spares migrations) m →
      Within (Unless HostCollided MayClose) m := fun hm =>
    (unless_of_spares hm).mono fun _ _ hu => hu.imp .inl
  have hdrive : Within (Unless HostCollided MayClose) (selfDrive : Op env rt PUnit) := by
    refine within_bind within_get fun h => ?_
    dsimp only
    split
    · exact hsame (spares_modify (fun _ => rfl) fun _ => rfl)
    · exact within_bind (within_attempt (hsame timeless_migrations.flush)) fun _ =>
        within_bind (within_attempt mayClose_runCycle) fun _ => within_pure
  refine within_bind within_get fun h => ?_
  split
  · exact within_bind hdrive fun _ => mayClose_checkMigrationWindow
  · exact mayClose_checkMigrationWindow

/-- What a step may write of migrations. A restart writes nothing: the log is the one on disk. -/
def Event.Due : Event → Host env rt → Host env rt → Prop
  | .request (.submitMutation q) _ => SubmissionDue q
  | .request .advance _ => MayClose
  | .tick _ => MayClose
  | .restart _ => fun _ _ => True
  | _ => SameAccount

def Event.Misflagged (e : Event) (h : Host env rt) : Prop :=
  match e with
  | .request (.submitMutation q) _ => Tropism.Misflagged h q
  | _ => False

theorem step_due {m m' : Machine env rt} {e : Event} (hstep : Step m e m')
    (hflag : ¬ e.Misflagged m.host) (hr : ∀ files, e ≠ .restart files) :
    Unless HostCollided e.Due m.host m'.host := by
  have hquiet : ∀ {α : Type} {p : Op env rt α} {h h' : Host env rt} {r : Except SubstrateError α},
      Within (Spares migrations) p → p.exec h = some (r, h') →
      Unless HostCollided SameAccount h h' := fun hp he => unless_of_spares hp _ _ _ he
  cases hstep with
  | request hs hpending he =>
    rename_i q answer h
    cases q with
    | registerAxis q =>
      obtain ⟨y, h1⟩ := exec_of_bind_pure he
      exact hquiet timeless_migrations.registerAxis h1
    | perturb q =>
      obtain ⟨y, h1⟩ := exec_of_bind_pure he
      exact hquiet timeless_migrations.perturb h1
    | perturbFromRaw q =>
      obtain ⟨y, h1⟩ := exec_of_bind_pure he
      exact hquiet timeless_migrations.perturbFromRaw h1
    | advance =>
      obtain ⟨y, h1⟩ := exec_of_bind_pure he
      exact mayClose_advance _ _ _ h1
    | submitMutation q =>
      obtain ⟨y, h1⟩ := exec_of_bind_pure he
      exact submission_due hflag h1
  | flush he => exact hquiet timeless_migrations.flush he
  | tick hs he => exact mayClose_autonomousTick _ _ _ he
  | other ha =>
    have ha := ha.of_narrower migrations_narrower
    exact ⟨ha.collided, fun _ => account_of_aside ha⟩
  | save => exact ⟨id, fun _ => rfl⟩
  | workerExit => exact ⟨id, fun _ => rfl⟩
  | hello _ _ _ => exact ⟨id, fun _ => rfl⟩
  | restart => exact absurd rfl (hr _)

/-! ### Logs that stay bracketed -/

/-- The log is bracketed, and what is in flight is what the log has left open. -/
structure Account.Tracked (a : Account) : Prop where
  bracketed : Bracketed a.marks
  inFlight : ∀ op ∈ a.inFlight, openOf a.marks = some op
  faithful : a.strays = []

theorem Takes.tracked {t : Turn} (ht : Takes t h h') (hh : (account h).Tracked) :
    (account h').Tracked := by
  have hmoves := ht.moves
  have hmarks := ht.marks
  have hopen : openOf (account h').marks = t.marks.foldl openMark (openOf (account h).marks) := by
    rw [hmarks, openOf_append]
  have hheld := hh.inFlight
  generalize hbefore : (account h).inFlight = o at hmoves hheld
  generalize hafter : (account h').inFlight = o' at hmoves
  refine ⟨?_, ?_, ht.strays.trans hh.faithful⟩
  · rw [hmarks]
    refine .turn hh.bracketed ?_
    cases hmoves with
    | opened => trivial
    | committed => exact hheld _ rfl
    | rolledBack => exact hheld _ rfl
    | unbuilt => trivial
    | applied => trivial
  · rw [hafter, hopen]
    cases hmoves with
    | opened => exact fun op hop => hop
    | committed => exact nofun
    | rolledBack => exact nofun
    | unbuilt => exact nofun
    | applied => exact fun op hop => hheld op hop

theorem tracked_of_same (hs : SameAccount h h') (hh : (account h).Tracked) :
    (account h').Tracked := by
  rw [show account h' = account h from hs]
  exact hh

theorem MayClose.tracked (hs : MayClose h h') (hh : (account h).Tracked) :
    (account h').Tracked := by
  rcases hs with hs | ⟨op, hs | hs⟩
  · exact tracked_of_same hs hh
  · exact hs.tracked hh
  · exact hs.tracked hh

theorem Event.Due.tracked {e : Event} (hd : e.Due h h') (hr : ∀ files, e ≠ .restart files)
    (hh : (account h).Tracked) : (account h').Tracked := by
  cases e with
  | request q answer =>
    cases q with
    | submitMutation q =>
      rcases hd with ⟨report, -, ht⟩ | ⟨-, hs | ⟨-, op, ht⟩⟩
      · exact ht.tracked hh
      · exact tracked_of_same hs hh
      · exact ht.tracked hh
    | advance => exact MayClose.tracked hd hh
    | registerAxis q => exact tracked_of_same hd hh
    | perturb q => exact tracked_of_same hd hh
    | perturbFromRaw q => exact tracked_of_same hd hh
  | tick b => exact MayClose.tracked hd hh
  | restart files => exact absurd rfl (hr files)
  | flush => exact tracked_of_same hd hh
  | other => exact tracked_of_same hd hh
  | save => exact tracked_of_same hd hh
  | workerExit => exact tracked_of_same hd hh
  | hello => exact tracked_of_same hd hh

end

/-! ### Starting again -/

section

theorem Mark.eq_nodeType {nodeType : String} {mark : Mark} (h : Mark.ofType? nodeType = some mark) :
    nodeType = mark.nodeType := by
  have hstrip : ∀ {p : String} {f : String → Mark}, (stripPrefix p nodeType).map f = some mark →
      ∃ op, nodeType = p ++ op ∧ f op = mark := by
    intro p f hp
    obtain ⟨op, hop, hf⟩ := Option.map_eq_some_iff.1 hp
    exact ⟨op, stripPrefix_eq_some.1 hop, hf⟩
  simp only [ofType?, Option.or_eq_some_iff] at h
  rcases h with h | ⟨-, h | ⟨-, h | ⟨-, h | ⟨-, h⟩⟩⟩⟩ <;>
  · obtain ⟨op, rfl, rfl⟩ := hstrip h
    rfl

theorem startsWith_of_family {nodeType : String} : match family nodeType with
    | .migrationStarted => startsWith migrationStartedPrefix nodeType
    | .migrationEnded => startsWith migrationCommittedPrefix nodeType ∨
        startsWith migrationRolledBackPrefix nodeType
    | _ => True := by
  unfold family
  split_ifs <;> trivial

variable {n : DagNode} {dag : Option Dag} {d d' : DerivedState}

theorem candidate_of_unmarked (hm : Mark.ofType? n.nodeType = none)
    (ha : applyEventWithDag dag n d = (.ok (), d')) :
    d'.migrationCandidate = d.migrationCandidate := by
  have hno : ∀ p ∈ [migrationStartedPrefix, migrationCommittedPrefix, migrationRolledBackPrefix],
      ¬ startsWith p n.nodeType := by
    intro p hp hs
    obtain ⟨op, hop⟩ := eq_append_of_startsWith hs
    have hmark : ∃ mark : Mark, mark.nodeType = p ++ op := by
      simp only [List.mem_cons, List.not_mem_nil, or_false] at hp
      rcases hp with rfl | rfl | rfl
      · exact ⟨.started op, rfl⟩
      · exact ⟨.committed op, rfl⟩
      · exact ⟨.rolledBack op, rfl⟩
    obtain ⟨mark, hmark⟩ := hmark
    rw [hop, ← hmark, mark.ofType?_nodeType] at hm
    cases hm
  have hfamily := @startsWith_of_family n.nodeType
  rw [applyEventWithDag] at ha
  cases hf : family n.nodeType with
  | genesis =>
    rw [hf] at ha
    obtain ⟨-, _, _, _, -, -, -, rfl⟩ := applyGenesis_eq_ok.1 ha
    rfl
  | cycleAdvanced =>
    rw [hf] at ha
    obtain ⟨_, -, rfl⟩ := afterReading_eq_ok.1 ha
    rfl
  | absorption =>
    rw [hf] at ha
    obtain ⟨_, -, rfl⟩ := afterReading_eq_ok.1 ha
    rfl
  | migrationStarted =>
    rw [hf] at hfamily
    exact absurd hfamily (hno _ (by simp))
  | migrationEnded =>
    rw [hf] at hfamily
    rcases hfamily with hs | hs
    · exact absurd hs (hno _ (by simp))
    · exact absurd hs (hno _ (by simp))
  | successorChainUpdated =>
    rw [hf] at ha
    obtain ⟨_, -, rfl⟩ := afterReading_eq_ok.1 ha
    rfl
  | successionConfigDeclared =>
    rw [hf] at ha
    obtain ⟨_, -, rfl⟩ := afterReading_eq_ok.1 ha
    rfl
  | pureRecord =>
    rw [hf] at ha
    cases ha
    rfl

/-- The operation in flight that the log determines. -/
def openOp (d : DerivedState) : Option String :=
  d.migrationCandidate.map MigrationCandidate.opName

theorem openOp_of_marked {mark : Mark} (hm : Mark.ofType? n.nodeType = some mark)
    (hn : astray n = false) (ha : applyEventWithDag dag n d = (.ok (), d')) :
    openOp d' = openMark (openOp d) mark := by
  have ht := Mark.eq_nodeType hm
  cases mark with
  | started op =>
    rw [applyEventWithDag, family_migrationStarted (ht ▸ startsWith_append)] at ha
    obtain ⟨c, hc, rfl⟩ := afterReading_eq_ok.1 ha
    have hop : c.opName = op := by simpa [astray, hm, hc] using hn
    exact congrArg some hop
  | committed op =>
    rw [apply_migrationEnded (family_migrationEnded (ht ▸ startsWith_append) (.inl rfl))] at ha
    cases ha
    rfl
  | rolledBack op =>
    rw [apply_migrationEnded (family_migrationEnded (ht ▸ startsWith_append) (.inr rfl))] at ha
    cases ha
    rfl
  | evolved op succeeded =>
    have hf : family n.nodeType = .pureRecord := by
      cases succeeded
      · exact family_pureRecord (p := evolutionFailedPrefix) (ht ▸ startsWith_append) (by decide)
      · exact family_pureRecord (p := evolutionSucceededPrefix) (ht ▸ startsWith_append) (by decide)
    rw [apply_pureRecord hf] at ha
    cases ha
    rfl

theorem openOp_of_replays {ns : List DagNode} (hn : ns.filter astray = [])
    (hr : Replays (applyEventWithDag dag) ns d d') :
    openOp d' = (marks ns).foldl openMark (openOp d) := by
  induction ns generalizing d with
  | nil =>
    rw [replays_nil] at hr
    rw [hr]
    rfl
  | cons n ns ih =>
    obtain ⟨e, h1, h2⟩ := replays_cons.1 hr
    rw [List.filter_eq_nil_iff, List.forall_mem_cons, ← List.filter_eq_nil_iff] at hn
    have hfaithful : astray n = false := Bool.eq_false_of_not_eq_true hn.1
    rw [ih hn.2 h2]
    cases hm : Mark.ofType? n.nodeType with
    | none =>
      rw [openOp, candidate_of_unmarked hm h1]
      simp [marks, hm, openOp]
    | some mark =>
      rw [openOp_of_marked hm hfaithful h1]
      simp [marks, hm]

/-- The log of a tracked host, on disk. -/
structure Logged (ns : List DagNode) : Prop where
  bracketed : Bracketed (marks ns)
  faithful : ns.filter astray = []

theorem tracked_boot {files : BootFiles} {disk : Ledger env.blake3} (hd : Logged disk.nodes) :
    (account (⟨bootState files disk, none⟩ : Host env rt)).Tracked := by
  refine ⟨hd.bracketed, fun op hop => ?_, hd.faithful⟩
  show openOf (marks disk.nodes) = some op
  have hinFlight : openOp (derivedState disk.dag) = some op := by
    obtain ⟨c, hc, rfl⟩ := Option.map_eq_some_iff.1 hop
    obtain ⟨c', hc', rfl⟩ := Option.map_eq_some_iff.1 hc
    exact congrArg (Option.map MigrationCandidate.opName) hc'
  rw [derivedState] at hinFlight
  cases hf : fromDag disk.dag with
  | error e =>
    rw [hf] at hinFlight
    cases hinFlight
  | ok d =>
    rw [hf] at hinFlight
    have hr : Replays (applyEventWithDag (some disk.dag)) disk.nodes .empty d :=
      fromDag_eq_ok.1 hf
    rw [← hinFlight]
    exact (openOp_of_replays hd.faithful hr).symm

end

/-! ### Runs -/

/-- As far as nothing has collided, the host is tracked and the log on disk is one of its logs. -/
structure Orderly (m : Machine env rt) : Prop where
  host : ¬ HostCollided m.host → (account m.host).Tracked
  disk : m.disk.Sound → Logged m.disk.nodes

theorem Orderly.step {m m' : Machine env rt} {e : Event} (hm : Orderly m) (hstep : Step m e m')
    (hflag : ¬ e.Misflagged m.host) : Orderly m' := by
  by_cases hr : ∃ files, e = .restart files
  · obtain ⟨files, rfl⟩ := hr
    cases hstep
    exact ⟨fun hc => tracked_boot (hm.disk (not_not.1 hc)), hm.disk⟩
  · have hr : ∀ files, e ≠ .restart files := fun files he => hr ⟨files, he⟩
    have hdue := step_due hstep hflag hr
    have hhost : ¬ HostCollided m'.host → (account m'.host).Tracked := fun hc =>
      (hdue.holds hc).tracked hr (hm.host fun hb => hc (hdue.stays hb))
    refine ⟨hhost, ?_⟩
    cases hstep with
    | save =>
      intro hs
      have ht := hm.host (not_not.2 hs)
      exact ⟨ht.bracketed, ht.faithful⟩
    | restart => exact absurd rfl (hr _)
    | request _ _ _ => exact hm.disk
    | flush _ => exact hm.disk
    | tick _ _ => exact hm.disk
    | other _ => exact hm.disk
    | workerExit => exact hm.disk
    | hello _ _ _ => exact hm.disk

section

end

/-! ### A mutation that says it is a migration -/

section

end

end Myco.Tropism
