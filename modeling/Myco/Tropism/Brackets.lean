import Myco.Tropism.Marks

/-!
# Turns in the log of migrations

What is written of migrations and evolutions comes in `Turn`s: a window is opened, and committed or
rolled back; a candidate cannot be built; a diff is applied at once. A turn `Moves` the operation in
flight, and a log that is written in turns is `Bracketed`. The functions that concern migrations take
at most one (`mayClose_*`, `does_*`).
-/

namespace Myco.Tropism

open Myco.Lib Myco.Canonical Myco.Schema Myco.Substrate Myco.Prune

variable {env : Env} {rt : Runtime}

/-! ### Turns -/

inductive Turn where
  | opened (op : String)
  | committed (op : String)
  | rolledBack (op : String)
  | unbuilt (op : String)
  | applied (op : String) (succeeded : Bool)
deriving DecidableEq

def Turn.marks : Turn → List Mark
  | .opened op => [.started op]
  | .committed op => [.committed op, .evolved op true]
  | .rolledBack op => [.rolledBack op, .evolved op false]
  | .unbuilt op => [.rolledBack op, .evolved op false]
  | .applied op succeeded => [.evolved op succeeded]

/-- From the operation in flight before the turn to the one after it. -/
inductive Turn.Moves : Option String → Turn → Option String → Prop
  | opened {op : String} : Moves none (.opened op) (some op)
  | committed {op : String} : Moves (some op) (.committed op) none
  | rolledBack {op : String} : Moves (some op) (.rolledBack op) none
  | unbuilt {op : String} : Moves none (.unbuilt op) none
  | applied {o : Option String} {op : String} {succeeded : Bool} :
      Moves o (.applied op succeeded) o

/-- What closes a window is of the operation that the log has left open. -/
def Turn.Fits (o : Option String) : Turn → Prop
  | .committed op => o = some op
  | .rolledBack op => o = some op
  | .opened _ => True
  | .unbuilt _ => True
  | .applied _ _ => True

/-- Written in turns. -/
inductive Bracketed : List Mark → Prop
  | nil : Bracketed []
  | turn {ms : List Mark} {t : Turn} : Bracketed ms → t.Fits (openOf ms) → Bracketed (ms ++ t.marks)

/-- The host writes the marks of the turn, and what is in flight moves with it. -/
structure Takes (t : Turn) (h h' : Host env rt) : Prop where
  marks : (account h').marks = (account h).marks ++ t.marks
  moves : Turn.Moves (account h).inFlight t (account h').inFlight
  strays : (account h').strays = (account h).strays

theorem same_same : ∀ h t h' : Host env rt, SameAccount h t → SameAccount t h' → SameAccount h h' :=
  fun _ _ _ h1 h2 => Eq.trans h2 h1

theorem takes_of_accounts {t : Turn} {f : Account → Account} {h h' : Host env rt}
    (ha : Accounts f h h') (hm : (f (account h)).marks = (account h).marks ++ t.marks)
    (hv : Turn.Moves (account h).inFlight t (f (account h)).inFlight)
    (hs : (f (account h)).strays = (account h).strays) : Takes t h h' := by
  rw [Accounts] at ha
  exact ⟨by rw [ha, hm], by rw [ha]; exact hv, by rw [ha, hs]⟩

theorem Takes.of_same {t : Turn} {h h' h'' : Host env rt} (h1 : SameAccount h h')
    (h2 : Takes t h' h'') : Takes t h h'' := by
  have h1 : account h' = account h := h1
  exact ⟨h1 ▸ h2.marks, h1 ▸ h2.moves, h1 ▸ h2.strays⟩

theorem Takes.trans_same {t : Turn} {h h' h'' : Host env rt} (h1 : Takes t h h')
    (h2 : SameAccount h' h'') : Takes t h h'' := by
  have h2 : account h'' = account h' := h2
  exact ⟨by rw [h2, h1.marks], by rw [h2]; exact h1.moves, by rw [h2, h1.strays]⟩

/-- Nothing is written, or the window is closed. -/
def MayClose (h h' : Host env rt) : Prop :=
  SameAccount h h' ∨ ∃ op, Takes (.committed op) h h' ∨ Takes (.rolledBack op) h h'

theorem MayClose.trans_same {h h' h'' : Host env rt} (h1 : MayClose h h') (h2 : SameAccount h' h'') :
    MayClose h h'' := by
  rcases h1 with h1 | ⟨op, h1 | h1⟩
  · exact .inl (Eq.trans h2 h1)
  · exact .inr ⟨op, .inl (h1.trans_same h2)⟩
  · exact .inr ⟨op, .inr (h1.trans_same h2)⟩

theorem MayClose.of_same {h h' h'' : Host env rt} (h1 : SameAccount h h') (h2 : MayClose h' h'') :
    MayClose h h'' := by
  rcases h2 with h2 | ⟨op, h2 | h2⟩
  · exact .inl (Eq.trans h2 h1)
  · exact .inr ⟨op, .inl (.of_same h1 h2)⟩
  · exact .inr ⟨op, .inr (.of_same h1 h2)⟩

theorem Turn.Moves.closes {o o' : Option String} {t : Turn} {op : String} (h : Moves o t o')
    (ht : t = .committed op ∨ t = .rolledBack op) : o = some op ∧ o' = none := by
  rcases ht with rfl | rfl
  · cases h
    exact ⟨rfl, rfl⟩
  · cases h
    exact ⟨rfl, rfl⟩

/-- A window is closed once. -/
instance : IsPreorder (Host env rt) MayClose where
  refl _ := .inl rfl
  trans h h' h'' h1 h2 := by
    rcases h2 with h2 | ⟨op', hc⟩
    · exact h1.trans_same h2
    · rcases h1 with h1 | ⟨op, ha⟩
      · exact .of_same h1 (.inr ⟨op', hc⟩)
      -- after a close nothing is in flight that could be closed again
      have hnone : (account h').inFlight = none := by
        rcases ha with ha | ha
        · exact (ha.moves.closes (.inl rfl)).2
        · exact (ha.moves.closes (.inr rfl)).2
      have hsome : (account h').inFlight = some op' := by
        rcases hc with hc | hc
        · exact (hc.moves.closes (.inl rfl)).1
        · exact (hc.moves.closes (.inr rfl)).1
      rw [hnone] at hsome
      cases hsome

theorem takes_close {h h' : Host env rt} {candidate : CandidateState}
    (hc : h.server.migrationCandidate = some candidate) {t : Turn} {ms : List Mark}
    (ht : Turn.Moves (some candidate.opName) t none) (hm : t.marks = ms)
    (ha : Accounts (.close ms) h h') : Takes t h h' := by
  refine takes_of_accounts ha (by rw [hm]; rfl) ?_ rfl
  rw [show (account h).inFlight = some candidate.opName by simp [account, hc]]
  exact ht

/-! ### What the migration step and the window take -/

section

variable {op reason : String} {h h' : Host env rt}

theorem mayClose_runMigrationStep {response : AdvanceResponse rt} :
    Within (Unless HostCollided MayClose) (runMigrationStep response : Op env rt PUnit) := by
  intro h r h' he
  rw [runMigrationStep, Prog.exec_get_bind] at he
  cases hm : h.server.migrationCandidate with
  | none =>
    rw [hm] at he
    cases he
    exact ⟨id, fun _ => .inl rfl⟩
  | some candidate =>
    simp only [hm] at he
    cases hd : decideCycle candidate h.server.cycleCounter response.outcome with
    | none =>
      simp only [hd] at he
      split at he
      · exact (does_emitCycleValidated.within _ _ _ he).imp .inl
      · cases he
        exact ⟨id, fun _ => .inl rfl⟩
    | some decision =>
      cases decision with
      | commit =>
        simp only [hd] at he
        exact (does_commitMigration.within _ _ _ he).imp fun ha =>
          .inr ⟨_, .inl (takes_close hm .committed rfl ha)⟩
      | rollback reason =>
        simp only [hd] at he
        exact (Does.within (does_bind_accounts does_emitCycleValidated fun _ => does_rollBack)
          _ _ _ he).imp fun ha => .inr ⟨_, .inr (takes_close hm .rolledBack rfl ha)⟩

theorem mayClose_forceMigrationRollback {candidate : CandidateState}
    {r : Except SubstrateError PUnit} (hc : h.server.migrationCandidate = some candidate)
    (he : (forceMigrationRollback candidate.opName reason).exec h = some (r, h')) :
    Unless HostCollided (Takes (.rolledBack candidate.opName)) h h' := by
  rw [forceMigrationRollback, Prog.exec_get_bind] at he
  simp only [hc, Option.isNone_some, Bool.false_eq_true, if_false] at he
  exact (does_rollBack.within _ _ _ he).imp (takes_close hc .rolledBack rfl)

theorem does_setting {g : ServerState env → ServerState env} {f : Account → Account}
    (hl : ∀ s, (g s).ledger = s.ledger)
    (hf : ∀ h : Host env rt, account { h with server := g h.server } = f (account h)) :
    Does HostCollided (Accounts f) (onServer (modify g) : Op env rt PUnit) := by
  intro h r h' he
  obtain ⟨s, h1, rfl⟩ := exec_onServer.1 he
  cases h1
  exact ⟨fun hc => by rwa [HostCollided, Collided, hl], fun _ => ⟨⟨_, rfl⟩, hf h⟩⟩

theorem mayClose_checkMigrationWindow :
    Within (Unless HostCollided MayClose) (checkMigrationWindow : Op env rt PUnit) := by
  intro h r h' he
  rw [checkMigrationWindow, Prog.exec_get_bind] at he
  cases hm : h.server.migrationCandidate with
  | none =>
    rw [hm] at he
    cases he
    exact ⟨id, fun _ => .inl rfl⟩
  | some candidate =>
    simp only [hm] at he
    split at he
    · obtain ⟨_, t, h1, h2⟩ := turns_immune.succeeds.exec_bind he
      have hwarned := does_immune.within _ _ _ h1
      have hcand : t.server.migrationCandidate = some candidate :=
        (congrArg Core.migrationCandidate (turns_immune.within _ _ _ h1)).trans hm
      rcases Prog.exec_bind_eq_some.1 h2 with ⟨e, h3, -⟩ | ⟨_, u, h3, h4⟩
      · obtain ⟨s, h5, -⟩ := exec_onServer.1 h3
        cases h5
      have hnoted : Unless HostCollided SameAccount t u := by
        refine Does.within ?_ _ _ _ h3
        exact does_setting (fun _ => rfl) fun _ => rfl
      have hkept : u.server.migrationCandidate = some candidate := by
        obtain ⟨s, h5, rfl⟩ := exec_onServer.1 h3
        cases h5
        exact hcand
      exact (hwarned.trans hnoted (same_same _ _ _)).trans
        (mayClose_forceMigrationRollback hkept h4) fun hs hc => .inr ⟨_, .inr (.of_same hs hc)⟩
    · cases he
      exact ⟨id, fun _ => .inl rfl⟩

end

/-! ### What a submission does to the account -/

section

variable {α β : Type} {report : MutationReport} {r : Ruling} {R S : Host env rt → Host env rt → Prop}

theorem does_same_bind {m : Op env rt α} {k : α → Op env rt β} (hm : Does HostCollided SameAccount m)
    (hk : ∀ a, Does HostCollided S (k a)) (hS : ∀ h t h', SameAccount h t → S t h' → S h h') :
    Does HostCollided S (m >>= k) :=
  does_bind hm hk fun h t h' h1 h2 => hS h t h' h1 h2

theorem does_some {m : Op env rt α} (h : Does HostCollided R m) :
    Does HostCollided R (some <$> m) := by
  rw [map_eq_pure_bind]
  exact does_bind h (fun _ => does_pure (R := Eq) fun _ => rfl) fun s t u h1 h2 => h2 ▸ h1

theorem does_recordMutation :
    Does HostCollided SameAccount (recordMutation report r : Op env rt (Option NodeHash)) := by
  unfold recordMutation
  split
  · exact does_some (does_insertPlain (p := mutationPrefix) (by decide) startsWith_append)
  · exact does_same_bind does_immune (fun _ => does_pure fun _ => rfl) same_same

theorem does_commitBackupEncryptionStatus :
    Does HostCollided SameAccount (commitBackupEncryptionStatus r : Op env rt PUnit) := by
  unfold commitBackupEncryptionStatus
  split
  · exact does_pure fun _ => rfl
  · refine does_get_bind (Q := fun _ => SameAccount) (fun h => ?_) fun _ _ hs => hs
    exact does_same_bind (does_insertPlain (p := backupEncryptionStatusDeclaredPrefix) (by decide)
      startsWith_append) (fun _ => does_setting (fun _ => rfl) fun _ => rfl) same_same

theorem does_commitOwnerObjective :
    Does HostCollided SameAccount (commitOwnerObjective r : Op env rt PUnit) := by
  unfold commitOwnerObjective
  split
  · exact does_pure fun _ => rfl
  · exact does_same_bind (does_insertPlain (p := ownerObjectiveDeclaredPrefix) (by decide)
      startsWith_append) (fun _ => does_setting (fun _ => rfl) fun _ => rfl) same_same

theorem does_recordCompression :
    Does HostCollided SameAccount (recordCompression r : Op env rt (Option NodeHash)) := by
  unfold recordCompression
  split
  · exact does_pure fun _ => rfl
  · exact does_get_bind (Q := fun _ => SameAccount) (fun h => does_some (does_insertPlain
      (p := compressionEventPrefix) (by decide) startsWith_append)) fun _ _ hs => hs

/-- A diff that was applied at once leaves its mark. -/
theorem does_recordEvolution (ha : report.schemaApplyAttempted = true) : Does HostCollided
    (Accounts (.write [.evolved report.schemaApplyOp report.schemaApplySucceeded]))
    (recordEvolution report : Op env rt (Option NodeHash)) := by
  rw [recordEvolution, if_pos ha]
  exact does_some (does_insertMark
    (.evolved report.schemaApplyOp report.schemaApplySucceeded) nofun)

theorem does_recordEvolution_none (ha : report.schemaApplyAttempted = false) :
    Does HostCollided SameAccount (recordEvolution report : Op env rt (Option NodeHash)) := by
  rw [recordEvolution, ha]
  exact does_pure fun _ => rfl

/-- Writes that a migration has started, and has it in flight. -/
def Account.openWindow (op : String) (a : Account) : Account :=
  ⟨a.marks ++ [.started op], some op, a.strays⟩

theorem not_astray_started {op : String} {diff : Bytes} {cycle window createdAtCycle : UInt64}
    {now : Int64} {ps : List NodeHash}
    (hlen : (encodeSchemaMigrationStarted op diff cycle window now).length ≤ isizeMax) :
    astray (Insertion.node env.blake3 ⟨ps, migrationStartedPrefix ++ op, createdAtCycle,
      encodeSchemaMigrationStarted op diff cycle window now⟩) = false := by
  have hread : readMigrationStarted (Insertion.node env.blake3 ⟨ps, migrationStartedPrefix ++ op,
      createdAtCycle, encodeSchemaMigrationStarted op diff cycle window now⟩) = .ok _ :=
    readMigrationStarted_encode rfl hlen
  have hm : Mark.ofType? (Insertion.node env.blake3 ⟨ps, migrationStartedPrefix ++ op,
      createdAtCycle, encodeSchemaMigrationStarted op diff cycle window now⟩).nodeType =
      some (.started op) := (Mark.started op).ofType?_nodeType
  rw [astray, hm, hread]
  simp

theorem does_openWindow : Does HostCollided (Accounts (.openWindow report.schemaApplyOp))
    (openWindow report : Op env rt NodeHash) := by
  have hclock : Within (Unless HostCollided SameAccount) (onServer readClock : Op env rt Int64) :=
    unless_of_spares ((leaves_onServer aside_readClock).mono fun _ _ => Leaves.spares)
  have hreads : Succeeds (onServer readClock : Op env rt Int64) := by
    intro h r h' he
    obtain ⟨s, h1, -⟩ := exec_onServer.1 he
    cases h1
    exact ⟨_, rfl⟩
  refine does_same_bind (hreads.does hclock) (fun now => ?_) fun h t h' h1 h2 => by
    rw [Accounts, h2, show account t = account h from h1]
  refine does_get_bind (Q := fun _ => Accounts (.openWindow report.schemaApplyOp)) (fun h => ?_)
    fun _ _ ha => ha
  refine does_bind (R := Accounts fun a => { a with inFlight := some report.schemaApplyOp })
    (S := Accounts (.write [.started report.schemaApplyOp]))
    (does_setting (fun _ => rfl) fun _ => rfl) (fun _ => ?_) fun s t u h1 h2 => by
      rw [Accounts, h2, h1]
      rfl
  refine does_insertEvent (Mark.nodeType_ne (.started report.schemaApplyOp)) fun h0 s ha => ?_
  have hm := (Mark.started report.schemaApplyOp).ofType?_nodeType
  rw [Accounts, account_of_appends ha]
  · exact congrArg (fun o => Account.write (Option.toList o) (account h0)) hm
  · exact not_astray_started ha.content

theorem does_recordBuildFailure : Does HostCollided (Accounts (.write
    [.rolledBack report.schemaApplyOp, .evolved report.schemaApplyOp false]))
    (recordBuildFailure report : Op env rt NodeHash) := by
  refine does_get_bind (Q := fun _ => Accounts (.write [.rolledBack report.schemaApplyOp,
    .evolved report.schemaApplyOp false])) (fun h => ?_) fun _ _ ha => ha
  refine Does.mono (does_bind_accounts (does_insertMark (.rolledBack report.schemaApplyOp)
    nofun) fun _ => does_bind_accounts (does_insertMark
      (.evolved report.schemaApplyOp false) nofun) fun _ => does_pure (R := Accounts id)
        fun _ => rfl) fun s t ha => ?_
  rw [Accounts, ha]
  simp [Account.write]

theorem does_migrate_none (h : (r.accepted && report.migrationMode) = false) :
    Does HostCollided SameAccount (migrate report r : Op env rt _) := by
  rw [migrate, h]
  exact does_pure fun _ => rfl

/-- A migration that is accepted opens a window, or its candidate could not be built. -/
def Account.migrated (report : MutationReport) : Account → Account :=
  if report.candidateBuilt then .openWindow report.schemaApplyOp
  else .write [.rolledBack report.schemaApplyOp, .evolved report.schemaApplyOp false]

theorem does_migrate (h : (r.accepted && report.migrationMode) = true) :
    Does HostCollided (Accounts (.migrated report)) (migrate report r : Op env rt _) := by
  have hpure : ∀ {f : Account → Account} {m : Op env rt NodeHash}
      {k : NodeHash → Option NodeHash × Option NodeHash}, Does HostCollided (Accounts f) m →
      Does HostCollided (Accounts f) (m >>= fun a => pure (k a)) := fun hm =>
    does_bind hm (fun _ => does_pure (R := Eq) fun _ => rfl) fun s t u h1 h2 => h2 ▸ h1
  rw [migrate, if_pos h]
  unfold Account.migrated
  split
  · exact hpure does_openWindow
  · exact hpure does_recordBuildFailure

/-- The window is closed, if the mutation was to do that. -/
def MayAbort (report : MutationReport) (h h' : Host env rt) : Prop :=
  SameAccount h h' ∨ report.mutationType = "abort_migration" ∧ ∃ op, Takes (.rolledBack op) h h'

theorem does_abortMigration :
    Does HostCollided (MayAbort report) (abortMigration report r : Op env rt PUnit) := by
  intro h a h' he
  rw [abortMigration, Prog.exec_get_bind] at he
  cases hc : h.server.migrationCandidate with
  | none =>
    rw [hc] at he
    cases he
    exact ⟨id, fun _ => ⟨⟨_, rfl⟩, .inl rfl⟩⟩
  | some candidate =>
    simp only [hc] at he
    split at he
    · rename_i hboth
      have ht : report.mutationType = "abort_migration" :=
        of_decide_eq_true (Bool.and_eq_true_iff.1 hboth).2
      obtain ⟨x, u, h1, h2⟩ := succeeds_attempt.exec_bind he
      obtain ⟨y, h3, hx⟩ := Prog.exec_attempt_eq_some.1 h1
      cases hx
      obtain ⟨⟨z, rfl⟩, -⟩ := forceMigrationRollback_exec h3
      cases h2
      exact (mayClose_forceMigrationRollback hc h3).imp fun ht' =>
        ⟨⟨_, rfl⟩, .inr ⟨ht, _, ht'⟩⟩
    · cases he
      exact ⟨id, fun _ => ⟨⟨_, rfl⟩, .inl rfl⟩⟩

/-- What is recorded of a mutation, of which the first part writes no marks. -/
theorem does_record {E M T : Host env rt → Host env rt → Prop}
    (hE : Does HostCollided E (recordEvolution report))
    (hM : Does HostCollided M (migrate report r))
    (hT : ∀ h s t u h', SameAccount h s → E s t → M t u → MayAbort report u h' → T h h') :
    Does HostCollided T (record report r : Op env rt Recorded) :=
  does_record_of does_recordMutation does_commitBackupEncryptionStatus does_commitOwnerObjective
    does_recordCompression hE hM does_abortMigration hT

end

end Myco.Tropism
