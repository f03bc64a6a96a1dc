import Myco.Tropism.Performing

/-!
# The birth period

A substrate that is born of an infected parent is in quarantine, and its gradient is to stay as it
was inherited. `registerAxis` and `perturb` ask for the quarantine first; the two other requests that
reach the gradient do not, and these are what gets past it (`Disturbs`).

What an arm does without the worker, or to ask it something, is left open (`Operation.elsewhere`).
-/

namespace Myco.Tropism

open Myco.Lib Myco.Canonical Myco.Schema Myco.Substrate

variable {env : Env} {rt : Runtime}

/-! ### Gradients that stay -/

/-- The gradient of the worker, if there is one. -/
def Host.gradient? (h : Host env rt) : Option (GradientConfiguration rt) :=
  h.python.map DispatcherState.gradient

/-- The worker has the gradient it had, or it is gone. -/
def GradientStays (h h' : Host env rt) : Prop := h'.gradient? = none ∨ h'.gradient? = h.gradient?

instance : IsPreorder (Host env rt) GradientStays where
  refl _ := .inr rfl
  trans h t h' h1 h2 := by
    rcases h2 with h2 | h2
    · exact .inl h2
    · rcases h1 with h1 | h1
      · exact .inl (h2.trans h1)
      · exact .inr (h2.trans h1)

/-- The worker is left alone. -/
def Alone (h h' : Host env rt) : Prop := h'.python = h.python

instance : IsPreorder (Host env rt) Alone where
  refl _ := rfl
  trans _ _ _ h h' := Eq.trans h' h

theorem Alone.gradientStays {h h' : Host env rt} (ha : Alone h h') : GradientStays h h' :=
  .inr (congrArg (Option.map DispatcherState.gradient) ha)

section

variable {α : Type} {report : MutationReport} {r : Ruling}

theorem alone_onServer {m : Handler env α} : Within Alone (onServer m : Op env rt α) := by
  intro h r h' he
  obtain ⟨s, -, rfl⟩ := exec_onServer.1 he
  rfl

theorem alone_immune {detectorId detectorName evidence : String} :
    Within Alone (immune detectorId detectorName evidence : Op env rt PUnit) :=
  within_bind (within_attempt alone_onServer) fun _ => within_pure

theorem alone_rule : Within Alone (rule report : Op env rt Ruling) := within_rule alone_immune

theorem alone_recordMutation : Within Alone (recordMutation report r : Op env rt _) :=
  within_recordMutation alone_immune fun _ => alone_onServer

theorem alone_commitBackupEncryptionStatus :
    Within Alone (commitBackupEncryptionStatus r : Op env rt _) :=
  within_commitBackupEncryptionStatus (fun _ => alone_onServer) fun _ => alone_onServer

theorem alone_commitOwnerObjective : Within Alone (commitOwnerObjective r : Op env rt _) :=
  within_commitOwnerObjective (fun _ => alone_onServer) fun _ => alone_onServer

theorem alone_recordCompression : Within Alone (recordCompression r : Op env rt _) :=
  within_recordCompression fun _ => alone_onServer

theorem alone_recordEvolution : Within Alone (recordEvolution report : Op env rt _) :=
  within_recordEvolution (fun _ => alone_onServer) fun _ => alone_onServer

theorem alone_migrate : Within Alone (migrate report r : Op env rt _) :=
  within_migrate alone_onServer (fun _ => alone_onServer) (fun _ => alone_onServer)
    (fun _ => alone_onServer) fun _ => alone_onServer

/-- All that a submission records before it aborts anything. -/
theorem within_record {R : Host env rt → Host env rt → Prop} [IsPreorder (Host env rt) R]
    (hR : ∀ {h h'}, Alone h h' → R h h') (ha : Within R (abortMigration report r : Op env rt _)) :
    Within R (record report r : Op env rt Recorded) := by
  have hmono : ∀ {α : Type} {m : Op env rt α}, Within Alone m → Within R m :=
    fun hm => hm.mono fun _ _ => hR
  exact within_bind (hmono alone_recordMutation) fun _ =>
    within_bind (hmono alone_commitBackupEncryptionStatus) fun _ =>
    within_bind (hmono alone_commitOwnerObjective) fun _ =>
    within_bind (hmono alone_recordCompression) fun _ =>
    within_bind (hmono alone_recordEvolution) fun _ => within_bind (hmono alone_migrate) fun _ =>
    within_bind ha fun _ => within_pure

theorem alone_record (ht : report.mutationType ≠ "abort_migration") :
    Within Alone (record report r : Op env rt Recorded) := by
  refine within_record id (within_bind within_get fun h => ?_)
  cases h.server.migrationCandidate with
  | none => exact within_pure
  | some candidate =>
    dsimp only
    rw [if_neg (by simp [ht])]
    exact within_pure

/-- A worker that is told to abort drops its candidate. -/
theorem gradientStays_tellAbort {complaint : String} :
    Within GradientStays (tellWorker .abortMigration complaint : Op env rt PUnit) := by
  have hcall : Within GradientStays (callPython .abortMigration [] : Op env rt (Reply rt)) := by
    intro h x h' he
    rcases callPython_cases he with ⟨w, reply, w', hp, hd, -, rfl⟩ | ⟨e, -, hs, rfl | hn⟩
    · cases hd
      exact .inr (by rw [Host.gradient?, Host.gradient?, hp]; rfl)
    · exact Std.Refl.refl (r := GradientStays) h'
    · exact .inl (by rw [Host.gradient?, hn]; rfl)
  have hsend : Within GradientStays
      (sendMigrationTerminal .abortMigration : Op env rt PUnit) := by
    refine within_bind hcall fun reply => ?_
    split
    · exact within_pure
    · exact within_throw
  refine within_bind (within_attempt hsend) fun x => ?_
  cases x with
  | ok _ => exact within_pure
  | error e => exact alone_immune.mono fun _ _ => Alone.gradientStays

theorem gradientStays_record : Within GradientStays (record report r : Op env rt Recorded) := by
  have hserver : ∀ {α : Type} {m : Handler env α}, Within GradientStays (onServer m : Op env rt α) :=
    alone_onServer.mono fun _ _ => Alone.gradientStays
  have hemit : ∀ {nodeType : String} {content : Bytes},
      Within GradientStays (emit nodeType content : Op env rt PUnit) :=
    within_bind (within_attempt hserver) fun _ => within_pure
  have hforce : ∀ {op reason : String},
      Within GradientStays (forceMigrationRollback op reason : Op env rt PUnit) := by
    refine within_bind within_get fun h => ?_
    split
    · exact within_pure
    · exact within_bind gradientStays_tellAbort fun _ => within_bind hemit fun _ =>
        within_bind hemit fun _ => hserver
  refine within_record Alone.gradientStays (within_bind within_get fun h => ?_)
  cases h.server.migrationCandidate with
  | none => exact within_pure
  | some candidate =>
    dsimp only
    split
    · refine within_bind (within_attempt hforce) fun x => ?_
      cases x with
      | ok _ => exact within_pure
      | error e => exact alone_immune.mono fun _ _ => Alone.gradientStays
    · exact within_pure

end

/-! ### Operations -/

inductive Operation (env : Env) where
  | request (q : Request)
  /-- any other arm, which changes nothing of the worker -/
  | elsewhere (m : Handler env PUnit)

def Operation.run : Operation env → Op env rt PUnit
  | .request q => q.run
  | .elsewhere m => onServer m

/-- What is perturbed from raw material, if the request can be read and the material is there. -/
def rawPerturbation? (rt : Runtime) (s : ServerState env) (payload : Payload) :
    Option (String × rt.F) := do
  let p ← (readRawPerturbation payload).toOption
  let _ ← (checkRawMaterial s p.rawMaterialHash).toOption
  let delta ← rt.f64 p.deltaRepr
  return (p.axisName, delta)

/-- The diff that a submission applies to the gradient, if it is a schema evolution in one step. -/
def oneStepDiff? (payload : Payload) : Option Bytes := do
  let mutation ← envelope? payload
  let migrationMode ← (readMigrationMode payload).toOption
  let content ← (OrdMap.get "content_canonical_bytes" payload).bind Value.bytes?
  if mutation.mutationType = schemaEvolutionType ∧ migrationMode = false then some content else none

/-- The operation perturbs an axis from raw material, or evolves the schema in one step, and the
gradient is not the same then. -/
def Disturbs (o : Operation env) (h : Host env rt) : Prop :=
  ∃ w g, h.python = some w ∧ g ≠ w.gradient ∧
    match o with
    | .request (.perturbFromRaw m) => ∃ axisName delta,
        rawPerturbation? rt h.server m.payload = some (axisName, delta) ∧
        w.gradient.perturbAxis axisName delta = .ok g
    | .request (.submitMutation m) => ∃ content, oneStepDiff? m.payload = some content ∧
        Evolves content w.gradient g
    | _ => False

section

variable {h h' : Host env rt} {m : Message}

/-- A worker that answers is heard. -/
theorem exec_callPython {t : MessageType} {payload : Payload} {w w' : DispatcherState rt}
    {reply : Reply rt} (hp : h.python = some w) (hd : dispatch w t payload = .ok (reply, w')) :
    (callPython t payload).exec h = some (.ok reply, { h with python := some w' }) := by
  rw [callPython, Prog.exec_get_bind]
  simp only [hp, hd, Prog.exec_modify_bind]
  rfl

theorem gradientStays_failed {u : Host env rt} (hw : u = h ∨ u.python = none) :
    GradientStays h u := by
  rcases hw with rfl | hn
  · exact Std.Refl.refl (r := GradientStays) u
  · exact .inl (by rw [Host.gradient?, hn]; rfl)

theorem Alone.gradient_eq {w : DispatcherState rt} {u : Host env rt} (ha : Alone u h')
    (hu : u.python = some w) : h'.gradient? = some w.gradient := by
  rw [Host.gradient?, ha, hu]
  rfl

/-! ### Perturbing from raw material -/

/-- What reading the request comes to: it is refused, or the worker is asked. -/
theorem perturbFromRaw_exec {r : Except SubstrateError (Option Message)}
    (he : (perturbAxisFromRawMaterial m : Op env rt (Option Message)).exec h = some (r, h')) :
    (rawPerturbation? rt h.server m.payload = none ∧ h' = h) ∨
    ∃ axisName delta, rawPerturbation? rt h.server m.payload = some (axisName, delta) ∧
      ((∃ e, (callPython .perturb (perturbPayload axisName delta)).exec h =
          some (.error e, h')) ∨
        ∃ reply u, (callPython .perturb (perturbPayload axisName delta)).exec h =
          some (.ok reply, u) ∧ Alone u h') := by
  rw [perturbAxisFromRawMaterial, Prog.exec_bind] at he
  cases hread : readRawPerturbation m.payload with
  | error e =>
    rw [hread] at he
    cases he
    exact .inl ⟨by simp [rawPerturbation?, hread, Except.toOption], rfl⟩
  | ok p =>
    rw [hread] at he
    change ((get >>= _ : Op env rt (Option Message))).exec h = _ at he
    rw [Prog.exec_get_bind, Prog.exec_bind] at he
    cases hraw : checkRawMaterial h.server p.rawMaterialHash with
    | error e =>
      rw [hraw] at he
      cases he
      exact .inl ⟨by simp [rawPerturbation?, hread, hraw, Except.toOption], rfl⟩
    | ok u =>
      rw [hraw] at he
      cases hx : rt.f64 p.deltaRepr with
      | none =>
        simp only [hx] at he
        cases he
        exact .inl ⟨by simp [rawPerturbation?, hread, hraw, hx, Except.toOption], rfl⟩
      | some delta =>
        simp only [hx] at he
        refine .inr ⟨p.axisName, delta, by
          simp [rawPerturbation?, hread, hraw, hx, Except.toOption], ?_⟩
        rcases Prog.exec_bind_eq_some.1 he with ⟨e, h1, -⟩ | ⟨reply, u, h1, h2⟩
        · exact .inl ⟨e, h1⟩
        · refine .inr ⟨reply, u, h1, ?_⟩
          split at h2
          · exact within_bind alone_onServer (fun _ => within_pure) _ _ _ h2
          · cases h2
            rfl

theorem perturbFromRaw_gradient {r : Except SubstrateError (Option Message)}
    (he : (perturbAxisFromRawMaterial m : Op env rt (Option Message)).exec h = some (r, h')) :
    GradientStays h h' ∨ ∃ axisName delta w g,
      rawPerturbation? rt h.server m.payload = some (axisName, delta) ∧ h.python = some w ∧
      w.gradient.perturbAxis axisName delta = .ok g ∧ h'.gradient? = some g := by
  rcases perturbFromRaw_exec he with ⟨-, rfl⟩ | ⟨axisName, delta, hraw, ⟨e, h1⟩ | ⟨reply, u, h1, ha⟩⟩
  · exact .inl (Std.Refl.refl (r := GradientStays) h')
  · rcases callPython_cases h1 with ⟨_, _, _, -, -, hr, -⟩ | ⟨_, -, -, hw⟩
    · cases hr
    · exact .inl (gradientStays_failed hw)
  · rcases callPython_cases h1 with ⟨w, reply', w', hp, hd, -, rfl⟩ | ⟨_, hr, -⟩
    · obtain ⟨name, delta', g, hreq, hper, -, rfl⟩ := handlePerturb_eq_ok.1
        (show handlePerturb w (perturbPayload axisName delta) = .ok (reply', w') from hd)
      rw [readPerturbation_perturbPayload] at hreq
      cases hreq
      exact .inr ⟨_, _, w, g, hraw, hp, hper, ha.gradient_eq rfl⟩
    · cases hr

theorem perturbFromRaw_changes {r : Except SubstrateError (Option Message)} {axisName : String}
    {delta : rt.F} {w : DispatcherState rt} {g : GradientConfiguration rt}
    (he : (perturbAxisFromRawMaterial m : Op env rt (Option Message)).exec h = some (r, h'))
    (hraw : rawPerturbation? rt h.server m.payload = some (axisName, delta))
    (hp : h.python = some w) (hper : w.gradient.perturbAxis axisName delta = .ok g) :
    h'.gradient? = some g := by
  have hd : dispatch w .perturb (perturbPayload axisName delta) =
      .ok (.perturbAck, { w with gradient := g }) :=
    handlePerturb_eq_ok.2 ⟨axisName, delta, g, readPerturbation_perturbPayload, hper, rfl, rfl⟩
  rcases perturbFromRaw_exec he with ⟨hnone, -⟩ | ⟨_, _, hraw', hcall⟩
  · rw [hraw] at hnone
    cases hnone
  rw [hraw] at hraw'
  cases hraw'
  rcases hcall with ⟨e, h1⟩ | ⟨reply, u, h1, ha⟩
  · rw [exec_callPython hp hd] at h1
    cases h1
  · rw [exec_callPython hp hd] at h1
    cases h1
    exact ha.gradient_eq rfl

/-! ### Submitting -/

/-- What follows the worker's answer. -/
theorem submit_rest {x : Except SubstrateError Submission}
    (he : (submit m.payload).exec h = some (x, h')) :
    (∃ u, (u = h ∨ u.python = none) ∧ h' = u) ∨
    ∃ w report w', h.python = some w ∧
      handleSubmitMutation w m.payload = .ok (.submitMutationResponse report, w') ∧
      GradientStays { h with python := some w' } h' ∧
      (report.mutationType ≠ "abort_migration" → Alone { h with python := some w' } h') := by
  rw [submit] at he
  rcases Prog.exec_bind_eq_some.1 he with ⟨e, h1, -⟩ | ⟨reply, u, h1, h2⟩
  · rcases callPython_cases h1 with ⟨_, _, _, -, -, hr, -⟩ | ⟨_, -, -, hw⟩
    · cases hr
    · exact .inl ⟨h', hw, rfl⟩
  rcases callPython_cases h1 with ⟨w, reply', w', hp, hd, hr, rfl⟩ | ⟨_, hr, -⟩
  · cases hr
    obtain ⟨report, rfl, -⟩ :=
      handleSubmitMutation_cases (show handleSubmitMutation w m.payload = .ok (reply, w') from hd)
    refine .inr ⟨w, report, w', hp, hd, ?_, fun ht => ?_⟩
    · exact within_bind (alone_rule.mono fun _ _ => Alone.gradientStays)
        (fun _ => within_bind gradientStays_record fun _ => within_pure) _ _ _ h2
    · exact within_bind alone_rule
        (fun _ => within_bind (alone_record ht) fun _ => within_pure) _ _ _ h2
  · cases hr

theorem oneStepDiff?_eq_some {payload : Payload} {content : Bytes} :
    oneStepDiff? payload = some content ↔ ∃ mutation, envelope? payload = some mutation ∧
      mutation.mutationType = schemaEvolutionType ∧ readMigrationMode payload = .ok false ∧
      OrdMap.get "content_canonical_bytes" payload = some (.bytes content) := by
  have hbytes : ∀ {v : Value} {bs : Bytes}, v.bytes? = some bs ↔ v = .bytes bs := by
    intro v bs
    cases v <;> simp [Value.bytes?]
  unfold oneStepDiff?
  constructor
  · intro h
    obtain ⟨mutation, h1, h⟩ := Option.bind_eq_some_iff.1 h
    obtain ⟨mode, h2, h⟩ := Option.bind_eq_some_iff.1 h
    obtain ⟨bs, h3, h⟩ := Option.bind_eq_some_iff.1 h
    obtain ⟨v, h4, h5⟩ := Option.bind_eq_some_iff.1 h3
    split at h
    · rename_i hboth
      cases h
      exact ⟨mutation, h1, hboth.1, by rw [toOption_eq_some.1 h2, hboth.2], by rw [h4, hbytes.1 h5]⟩
    · cases h
  · rintro ⟨mutation, h1, ht, h2, h3⟩
    simp [h1, ht, h2, h3, Except.toOption, Value.bytes?]

/-- A schema evolution in one step whose diff applies is applied. -/
theorem handleSubmitMutation_oneStep {w : DispatcherState rt} {payload : Payload} {content : Bytes}
    {g : GradientConfiguration rt} (ho : oneStepDiff? payload = some content)
    (hg : Evolves content w.gradient g) :
    ∃ report, handleSubmitMutation w payload =
        .ok (.submitMutationResponse report, { w with gradient := g }) ∧
      report.mutationType = schemaEvolutionType := by
  obtain ⟨mutation, henv, ht, hmode, hcontent⟩ := oneStepDiff?_eq_some.1 ho
  obtain ⟨fields, h1, henv⟩ := Option.bind_eq_some_iff.1 henv
  obtain ⟨touchedFields, h2, henv⟩ := Option.bind_eq_some_iff.1 henv
  obtain ⟨touchedFiles, h3, henv⟩ := Option.bind_eq_some_iff.1 henv
  obtain ⟨touchedMeta, h4, henv⟩ := Option.bind_eq_some_iff.1 henv
  cases henv
  have h1 := toOption_eq_some.1 h1
  have hbytes : fields.contentBytes = content := by
    have h5 := (readMutation_eq_ok h1).2
    rw [hcontent] at h5
    cases h5
    rfl
  obtain ⟨diff, hparse, hattempt⟩ := hg
  have hclass : classify ⟨fields.mutationType, touchedFields, touchedFiles, touchedMeta⟩ =
      .contractIdentityLevel := classify_schemaEvolution ht
  have hevolve : evolve w fields.contentBytes false =
      .ok (⟨true, true, "", diff.op.value, diff.summary rt, false⟩, { w with gradient := g }) := by
    have happly : applySchemaDiff diff w.gradient = .ok (none, g) := by
      rw [applySchemaDiff, hattempt]
      rfl
    rw [evolve, hbytes, hparse]
    show evolveGradient w diff = _
    rw [evolveGradient, happly]
    rfl
  rw [handleSubmitMutation, h1]
  dsimp only [Except.mapError, ok_bind]
  rw [toOption_eq_some.1 h2, ok_bind, toOption_eq_some.1 h3, ok_bind, toOption_eq_some.1 h4, ok_bind,
    hclass, hmode, ok_bind, if_pos ⟨by rfl, ht⟩, hevolve]
  exact ⟨_, rfl, ht⟩

theorem submit_gradient {x : Except SubstrateError Submission}
    (he : (submit m.payload).exec h = some (x, h')) :
    GradientStays h h' ∨ ∃ content w g, oneStepDiff? m.payload = some content ∧
      h.python = some w ∧ Evolves content w.gradient g ∧ h'.gradient? = some g := by
  rcases submit_rest he with ⟨u, hw, rfl⟩ | ⟨w, report, w', hp, hd, hstays, halone⟩
  · exact .inl (gradientStays_failed hw)
  obtain ⟨report', hr, hsub⟩ := handleSubmitMutation_cases hd
  cases hr
  have hidle : w'.gradient = w.gradient → GradientStays h h' := fun hw =>
    IsTrans.trans (r := GradientStays) h { h with python := some w' } h'
      (.inr (by rw [Host.gradient?, Host.gradient?, hp]; exact congrArg some hw)) hstays
  by_cases ht : report.mutationType = schemaEvolutionType
  · rcases evolve_cases (hsub.evolves ht) with ⟨rfl, -⟩ | ⟨-, -, -, -, g, -, rfl⟩ |
      ⟨hmode, -, -, g, hg, rfl⟩
    · exact .inl (hidle rfl)
    · exact .inl (hidle rfl)
    · obtain ⟨mutation, henv, hm, -⟩ := hsub.graded
      have ho := oneStepDiff?_eq_some.2 ⟨mutation, henv, hm.trans ht, hmode ▸ hsub.mode, hsub.content⟩
      exact .inr ⟨_, w, g, ho, hp, hg, (halone (by rw [ht]; decide)).gradient_eq rfl⟩
  · obtain ⟨rfl, -⟩ := hsub.idle ht
    exact .inl (hidle rfl)

theorem submit_changes {x : Except SubstrateError Submission} {content : Bytes}
    {w : DispatcherState rt} {g : GradientConfiguration rt}
    (he : (submit m.payload).exec h = some (x, h')) (ho : oneStepDiff? m.payload = some content)
    (hp : h.python = some w) (hg : Evolves content w.gradient g) : h'.gradient? = some g := by
  obtain ⟨report, hd, ht⟩ := handleSubmitMutation_oneStep ho hg
  have hcall := exec_callPython (t := .submitMutation) hp hd
  rw [submit, Prog.exec_bind, hcall] at he
  have hrest : Alone { h with python := some { w with gradient := g } } h' := by
    refine within_bind alone_rule (fun _ => within_bind (alone_record ?_) fun _ => within_pure) _ _ _ he
    rw [ht]
    decide
  exact hrest.gradient_eq rfl

/-- A schema evolution is not one of the mutations that are refused unread. -/
theorem earlyMutationType_of_oneStep {content : Bytes}
    (ho : oneStepDiff? m.payload = some content) : earlyMutationType m = schemaEvolutionType := by
  obtain ⟨mutation, henv, ht, -⟩ := oneStepDiff?_eq_some.1 ho
  obtain ⟨fields, h1, henv⟩ := Option.bind_eq_some_iff.1 henv
  obtain ⟨_, -, henv⟩ := Option.bind_eq_some_iff.1 henv
  obtain ⟨_, -, henv⟩ := Option.bind_eq_some_iff.1 henv
  obtain ⟨_, -, henv⟩ := Option.bind_eq_some_iff.1 henv
  cases henv
  have ht : fields.mutationType = schemaEvolutionType := ht
  rw [earlyMutationType, string?, (readMutation_eq_ok (toOption_eq_some.1 h1)).1, ht]
  rfl

/-! ### The seal -/

/-- The axes of the worker, with their parameters and values, are what they were. -/
def Sealed (h h' : Host env rt) : Prop :=
  ∀ w ∈ h.python, ∀ w' ∈ h'.python, w'.gradient = w.gradient

theorem GradientStays.sealed (hs : GradientStays h h') : Sealed h h' := by
  intro w hw w' hw'
  have hg : h.gradient? = some w.gradient := by rw [Host.gradient?, hw]; rfl
  have hg' : h'.gradient? = some w'.gradient := by rw [Host.gradient?, hw']; rfl
  rcases hs with hn | he
  · rw [hg'] at hn
    cases hn
  · rw [hg, hg'] at he
    exact Option.some.inj he

theorem not_sealed {w : DispatcherState rt} {g : GradientConfiguration rt} (hp : h.python = some w)
    (hne : g ≠ w.gradient) (hg : h'.gradient? = some g) : ¬ Sealed h h' := by
  intro hs
  obtain ⟨w', hw', rfl⟩ := Option.map_eq_some_iff.1 hg
  exact hne (hs w hp w' hw')

/-- In quarantine an operation that is no advance leaves the gradient as it is, unless it disturbs
it. -/
theorem quarantine_seals_iff {o : Operation env} {answer : Except SubstrateError PUnit}
    (hq : isInBirthPeriodQuarantine h.server = true) (hne : o ≠ .request .advance)
    (he : o.run.exec h = some (answer, h')) : Sealed h h' ↔ ¬ Disturbs o h := by
  have hquiet : ∀ {d : Prop}, (d → False) → GradientStays h h' → (Sealed h h' ↔ ¬ d) :=
    fun hd hs => ⟨fun _ => hd, fun _ => hs.sealed⟩
  have hblock : ∀ {α : Type} {opName : String} {r : Except SubstrateError α} {h' : Host env rt},
      (quarantineBlock opName : Op env rt α).exec h = some (r, h') → GradientStays h h' :=
    fun h1 => (within_bind alone_immune (fun _ => within_throw) _ _ _ h1 : Alone _ _).gradientStays
  cases o with
  | elsewhere m =>
    refine hquiet ?_ (alone_onServer _ _ _ he).gradientStays
    rintro ⟨_, _, _, _, hf⟩
    exact hf
  | request q =>
    cases q with
    | advance => exact absurd rfl hne
    | registerAxis m =>
      obtain ⟨y, h1⟩ := exec_of_bind_pure he
      rw [registerAxis, Prog.exec_get_bind, if_pos hq] at h1
      refine hquiet ?_ (hblock h1)
      rintro ⟨_, _, _, _, hf⟩
      exact hf
    | perturb m =>
      obtain ⟨y, h1⟩ := exec_of_bind_pure he
      rw [perturb, Prog.exec_get_bind, if_pos hq] at h1
      refine hquiet ?_ (hblock h1)
      rintro ⟨_, _, _, _, hf⟩
      exact hf
    | perturbFromRaw m =>
      obtain ⟨y, h1⟩ := exec_of_bind_pure he
      constructor
      · rintro hs ⟨w, g, hp, hg, axisName, delta, hraw, hper⟩
        exact not_sealed hp hg (perturbFromRaw_changes h1 hraw hp hper) hs
      · intro hd
        rcases perturbFromRaw_gradient h1 with hs | ⟨axisName, delta, w, g, hraw, hp, hper, hg'⟩
        · exact hs.sealed
        · by_cases hg : g = w.gradient
          · refine GradientStays.sealed (.inr ?_)
            rw [hg', hg, Host.gradient?, hp]
            rfl
          · exact absurd ⟨w, g, hp, hg, axisName, delta, hraw, hper⟩ hd
    | submitMutation m =>
      obtain ⟨y, h1⟩ := exec_of_bind_pure he
      rw [handleSubmitMutationRequest] at h1
      have hrefused : ∀ {detectorId detectorName evidence : String} {reply : Option Message},
          earlyMutationType m ≠ schemaEvolutionType →
          (do
            immune detectorId detectorName evidence
            pure reply : Op env rt (Option Message)).exec h = some (y, h') →
          (Sealed h h' ↔ ¬ Disturbs (.request (.submitMutation m)) h) := by
        intro _ _ _ _ ht h2
        refine hquiet ?_
          (within_bind alone_immune (fun _ => within_pure) _ _ _ h2 : Alone _ _).gradientStays
        rintro ⟨_, _, _, _, content, ho, -⟩
        exact ht (earlyMutationType_of_oneStep ho)
      split at h1
      · rename_i hpre
        exact hrefused (fun ht => by rw [ht] at hpre; exact absurd hpre (by decide)) h1
      · split at h1
        · rename_i hsup
          exact hrefused (fun ht => by rw [ht] at hsup; exact absurd hsup (by decide)) h1
        · obtain ⟨x, h2⟩ := exec_of_bind_pure h1
          constructor
          · rintro hs ⟨w, g, hp, hg, content, ho, hev⟩
            exact not_sealed hp hg (submit_changes h2 ho hp hev) hs
          · intro hd
            rcases submit_gradient h2 with hs | ⟨content, w, g, ho, hp, hev, hg'⟩
            · exact hs.sealed
            · by_cases hg : g = w.gradient
              · refine GradientStays.sealed (.inr ?_)
                rw [hg', hg, Host.gradient?, hp]
                rfl
              · exact absurd ⟨w, g, hp, hg, content, ho, hev⟩ hd

end

/-! ### A perturbation in quarantine -/

section

def sapAxis : Slot wholeNumbers :=
  ⟨.fromSchema ⟨"sap", .appetite, (5 : Int), (0 : Int), (1 : Int), false⟩, .noop⟩

def inQuarantine : Insertion :=
  ⟨[], birthPeriodQuarantineEnteredType, 0, cbEncode [("quarantine_duration_cycles", .uint 10)]⟩

def someRawMaterial : Insertion :=
  ⟨[(inQuarantine.node smallEnv.blake3).hash], rawMaterialPrefix ++ "text", 0,
    cbEncode [("kind", .string "text"), ("bytes", .bytes [1])]⟩

/-- A substrate in its birth period that has raw material, and its worker, which has an axis. -/
def nursling : Host smallEnv wholeNumbers where
  server := { bornState smallEnv with
    ledger := (Ledger.new.push inQuarantine).push someRawMaterial
    handshakeComplete := true }
  python := some { (.fresh : DispatcherState wholeNumbers) with
    gradient := ⟨[sapAxis], List.nodup_singleton _⟩ }

def feedSap : Message := ⟨"perturb_axis_from_raw_material", 1, OrdMap.ofList utf8
  [("axis_name", .string "sap"), ("delta_repr", .string "7"),
    ("raw_material_hash", hashValue (someRawMaterial.node smallEnv.blake3).hash)]⟩

/-- A host whose one axis has this value. -/
def hasSap (value : Int) (h : Host smallEnv wholeNumbers) : Bool :=
  h.gradient?.any fun g => g.slots.map (fun s => (s.axis.value : Int)) == [value]

theorem feedSap_run : ∃ answer h',
    (Operation.run (.request (.perturbFromRaw feedSap))).exec nursling = some (answer, h') ∧
    hasSap 7 h' = true := by
  have hrun : ((Operation.run (.request (.perturbFromRaw feedSap)) :
      Op smallEnv wholeNumbers PUnit).exec nursling).any (fun p => hasSap 7 p.2) = true := by
    decide
  obtain ⟨⟨answer, h'⟩, he, hsap⟩ := (Option.any_eq_true _ _).1 hrun
  exact ⟨answer, h', he, hsap⟩

theorem nursling_inQuarantine : isInBirthPeriodQuarantine nursling.server = true := by
  decide

/-- The sap is fed in quarantine. -/
theorem quarantine_broken : ∃ answer h', isInBirthPeriodQuarantine nursling.server = true ∧
    (Operation.run (.request (.perturbFromRaw feedSap))).exec nursling = some (answer, h') ∧
    ¬ Sealed nursling h' := by
  obtain ⟨answer, h', he, hsap⟩ := feedSap_run
  obtain ⟨g, hg, hvalue⟩ := (Option.any_eq_true _ _).1 hsap
  have hold : hasSap 7 nursling = false := by decide
  refine ⟨answer, h', nursling_inQuarantine, he, not_sealed rfl (fun h => ?_) hg⟩
  rw [hasSap, Option.any_eq_false] at hold
  exact Bool.false_ne_true ((hold g (by rw [h]; rfl)).symm.trans hvalue)

/-- And that is because it disturbs the gradient. -/
theorem quarantine_seals_feedSap : ∃ answer h',
    (Operation.run (.request (.perturbFromRaw feedSap))).exec nursling = some (answer, h') ∧
    (Sealed nursling h' ↔ ¬ Disturbs (.request (.perturbFromRaw feedSap)) nursling) := by
  obtain ⟨answer, h', he, -⟩ := feedSap_run
  exact ⟨answer, h', he, quarantine_seals_iff nursling_inQuarantine (fun hf => by cases hf) he⟩

end

end Myco.Tropism
