import Myco.Tropism.Mutations

/-!
# What is upheld

The gates of `handle_submit_mutation`, said of what they look at. `rule_exec`: a mutation that the
worker has accepted stays accepted just if it is `Upheld`, and then ruling on it has changed nothing
and has staged what its content declares.
-/

namespace Myco.Tropism

open Myco.Lib Myco.Canonical Myco.Schema Myco.Substrate

variable {env : Env} {rt : Runtime}

/-! ### What the gates want -/

def setBackupEncryptionStatusType : String := "set_backup_encryption_status"

def ownerObjectiveDeclarationType : String := "owner_objective_declaration"

def compressionType : String := "compression"

/-- The status that a content declares, and its key, if it is one of those there are. -/
def declaredBackup? (content : Bytes) : Option (String × Option String) := do
  let m ← decodeMap? content
  let status ← string? m "status"
  if status ∈ backupEncryptionStatusValidValues then some (status, string? m "key_id") else none

/-- The objective that a content declares, if it has weights. -/
def declaredObjective? (rt : Runtime) (content : Bytes) : Option OwnerObjective :=
  (decodeOwnerObjective rt content).filter fun o => !o.weights.isEmpty

/-- The witness in a content, if it spares what must not be compressed. -/
def declaredCompression? (s : ServerState env) (content : Bytes) : Option CompressionWitness :=
  (decodeCompressionWitnessMinimal content).filter fun w =>
    (w.compressedNodeHashes.findSome? (compressionViolation s.nodes s.cycleCounter w.ruleId)).isNone

/-- The gates let a mutation of this type and content pass. -/
structure Admissible (rt : Runtime) (s : ServerState env) (mutationType : String)
    (content : Bytes) : Prop where
  backup : mutationType = setBackupEncryptionStatusType → (declaredBackup? content).isSome
  objective : mutationType = ownerObjectiveDeclarationType → (declaredObjective? rt content).isSome
  compression : mutationType = compressionType → (declaredCompression? s content).isSome

/-- Accepted by the worker, no second migration, and admissible. -/
structure Upheld (rt : Runtime) (s : ServerState env) (report : MutationReport) : Prop where
  accepted : report.accepted = true
  single : report.migrationMode = true → s.migrationCandidate = none
  admissible : Admissible rt s report.mutationType report.contentCanonicalBytes

/-! ### Gates -/

/-- The program answers with a ruling that is accepted just if this one was and `ok` holds. Then it
has changed nothing and answers with `x`. -/
def Gates (r x : Ruling) (ok : ServerState env → Prop) (m : Op env rt Ruling) : Prop :=
  ∀ h a h', m.exec h = some (a, h') → ∃ y, a = .ok y ∧
    (y.accepted = true ↔ r.accepted = true ∧ ok h.server) ∧
    (y.accepted = true → h' = h ∧ y = x)

section

variable {report : MutationReport} {r x : Ruling} {ok : ServerState env → Prop}

theorem gates_refuse {reason detectorId detectorName evidence : String} (h : ∀ s, ¬ ok s) :
    Gates r x ok (do
      immune detectorId detectorName evidence
      pure (r.reject reason) : Op env rt Ruling) := by
  intro h0 a h' he
  obtain ⟨_, t, -, h2⟩ := turns_immune.succeeds.exec_bind he
  cases h2
  exact ⟨_, rfl, ⟨nofun, fun ha => absurd ha.2 (h _)⟩, nofun⟩

theorem gates_attestationInvalid {reason evidence : String} (h : ∀ s, ¬ ok s) :
    Gates r x ok (attestationInvalid r reason evidence : Op env rt Ruling) := gates_refuse h

/-- The gate of another type lets everything pass. -/
theorem gates_off {type : String} {P : ServerState env → Prop}
    (hnot : ¬ (r.accepted && decide (report.mutationType = type)) = true)
    (hx : report.mutationType ≠ type → x = r) :
    Gates r x (fun s => report.mutationType = type → P s) (pure r : Op env rt Ruling) := by
  intro h a h' he
  cases he
  have hne : r.accepted = true → report.mutationType ≠ type := by
    intro ha ht
    rw [ha, decide_eq_true ht] at hnot
    exact hnot rfl
  refine ⟨r, rfl, ⟨fun ha => ⟨ha, fun ht => absurd ht (hne ha)⟩, fun ha => ha.1⟩, fun ha => ?_⟩
  exact ⟨rfl, (hx (hne ha)).symm⟩

theorem gates_guardInFlight : Gates r r
    (fun s => report.migrationMode = true → s.migrationCandidate = none)
    (guardInFlight report r : Op env rt Ruling) := by
  intro h a h' he
  rw [guardInFlight, Prog.exec_get_bind] at he
  cases hc : h.server.migrationCandidate with
  | none =>
    simp only [hc] at he
    cases he
    exact ⟨r, rfl, by simp [hc], fun _ => ⟨rfl, rfl⟩⟩
  | some candidate =>
    simp only [hc] at he
    split at he
    · rename_i hboth
      obtain ⟨hacc, hmode⟩ := Bool.and_eq_true_iff.1 hboth
      obtain ⟨_, t, -, h2⟩ := turns_immune.succeeds.exec_bind he
      cases h2
      exact ⟨_, rfl, by simp [hc, hmode, Ruling.reject], nofun⟩
    · rename_i hnot
      cases he
      refine ⟨r, rfl, ⟨fun ha => ⟨ha, fun hm => ?_⟩, fun ha => ha.1⟩, fun _ => ⟨rfl, rfl⟩⟩
      rw [ha, hm] at hnot
      exact absurd rfl hnot

/-- What a mutation of the one type stages. -/
def Ruling.stageBackup (report : MutationReport) (r : Ruling) : Ruling :=
  if report.mutationType = setBackupEncryptionStatusType then
    { r with backupEncryptionStatus := declaredBackup? report.contentCanonicalBytes }
  else r

theorem gates_stageBackupEncryptionStatus : Gates r (r.stageBackup report)
    (fun _ => report.mutationType = setBackupEncryptionStatusType →
      (declaredBackup? report.contentCanonicalBytes).isSome)
    (stageBackupEncryptionStatus report r : Op env rt Ruling) := by
  unfold stageBackupEncryptionStatus
  split
  · rename_i hboth
    obtain ⟨hacc, ht⟩ := Bool.and_eq_true_iff.1 hboth
    have ht : report.mutationType = setBackupEncryptionStatusType := of_decide_eq_true ht
    split
    · rename_i hm
      exact gates_attestationInvalid fun _ h => by simpa [declaredBackup?, hm] using h ht
    · rename_i m hm
      split
      · rename_i hs
        exact gates_attestationInvalid fun _ h => by simpa [declaredBackup?, hm, hs] using h ht
      · rename_i status hs
        split
        · rename_i hv
          have hd : declaredBackup? report.contentCanonicalBytes =
              some (status, string? m "key_id") := by
            simp [declaredBackup?, hm, hs, hv]
          intro h a h' he
          cases he
          refine ⟨_, rfl, by simp [hacc, hd], fun _ => ⟨rfl, ?_⟩⟩
          rw [Ruling.stageBackup, if_pos ht, hd]
        · rename_i hv
          exact gates_attestationInvalid fun _ h => by
            simpa [declaredBackup?, hm, hs, hv] using h ht
  · rename_i hnot
    exact gates_off hnot fun hne => if_neg hne

/-- What a mutation of the other type stages. -/
def Ruling.stageObjective (rt : Runtime) (report : MutationReport) (r : Ruling) : Ruling :=
  if report.mutationType = ownerObjectiveDeclarationType then
    { r with ownerObjective := declaredObjective? rt report.contentCanonicalBytes }
  else r

theorem gates_stageOwnerObjective : Gates r (r.stageObjective rt report)
    (fun _ => report.mutationType = ownerObjectiveDeclarationType →
      (declaredObjective? rt report.contentCanonicalBytes).isSome)
    (stageOwnerObjective report r : Op env rt Ruling) := by
  unfold stageOwnerObjective
  split
  · rename_i hboth
    obtain ⟨hacc, ht⟩ := Bool.and_eq_true_iff.1 hboth
    have ht : report.mutationType = ownerObjectiveDeclarationType := of_decide_eq_true ht
    split
    · rename_i ho
      exact gates_attestationInvalid fun _ h => by simpa [declaredObjective?, ho] using h ht
    · rename_i objective ho
      split
      · rename_i hw
        exact gates_attestationInvalid fun _ h => by
          simpa [declaredObjective?, ho, Option.filter, hw] using h ht
      · rename_i hw
        have hd : declaredObjective? rt report.contentCanonicalBytes = some objective := by
          simp [declaredObjective?, ho, Option.filter, hw]
        intro h a h' he
        cases he
        refine ⟨_, rfl, by simp [hacc, hd], fun _ => ⟨rfl, ?_⟩⟩
        rw [Ruling.stageObjective, if_pos ht, hd]
  · rename_i hnot
    exact gates_off hnot fun hne => if_neg hne

/-- What a mutation of the third type stages. -/
def Ruling.stageCompression (s : ServerState env) (report : MutationReport) (r : Ruling) : Ruling :=
  if report.mutationType = compressionType then
    { r with compressionWitness := declaredCompression? s report.contentCanonicalBytes }
  else r

theorem stageCompression_exec {h h' : Host env rt} {a : Except SubstrateError Ruling}
    (he : (stageCompression report r).exec h = some (a, h')) : ∃ y, a = .ok y ∧
      (y.accepted = true ↔ r.accepted = true ∧ (report.mutationType = compressionType →
        (declaredCompression? h.server report.contentCanonicalBytes).isSome)) ∧
      (y.accepted = true → h' = h ∧ y = r.stageCompression h.server report) := by
  unfold stageCompression at he
  split at he
  · rename_i hboth
    obtain ⟨hacc, ht⟩ := Bool.and_eq_true_iff.1 hboth
    have ht : report.mutationType = compressionType := of_decide_eq_true ht
    split at he
    · rename_i hw
      obtain ⟨_, t, -, h2⟩ := turns_immune.succeeds.exec_bind he
      cases h2
      refine ⟨_, rfl, ⟨nofun, fun ha => ?_⟩, nofun⟩
      simpa [declaredCompression?, hw] using ha.2 ht
    · rename_i witness hw
      rw [Prog.exec_get_bind] at he
      split at he
      · rename_i hv
        have hd : declaredCompression? h.server report.contentCanonicalBytes = some witness := by
          simp [declaredCompression?, hw, Option.filter, hv]
        cases he
        refine ⟨_, rfl, by simp [hacc, hd], fun _ => ⟨rfl, ?_⟩⟩
        rw [Ruling.stageCompression, if_pos ht, hd]
      · rename_i reason hv
        obtain ⟨_, t, -, h2⟩ := turns_immune.succeeds.exec_bind he
        cases h2
        refine ⟨_, rfl, ⟨nofun, fun ha => ?_⟩, nofun⟩
        have hd : declaredCompression? h.server report.contentCanonicalBytes = none := by
          simp [declaredCompression?, hw, Option.filter, hv]
        simpa [hd] using ha.2 ht
  · rename_i hnot
    have hg : Gates r (r.stageCompression h.server report) (fun s =>
        report.mutationType = compressionType →
          (declaredCompression? s report.contentCanonicalBytes).isSome)
        (pure r : Op env rt Ruling) := gates_off hnot fun hne => if_neg hne
    exact hg h a h' he

end

/-! ### Ruling -/

/-- What ruling on an upheld mutation answers. -/
def upheldRuling (rt : Runtime) (s : ServerState env) (report : MutationReport) : Ruling :=
  (((Ruling.ofReport report).stageBackup report).stageObjective rt report).stageCompression s report

theorem rule_exec {report : MutationReport} {h h' : Host env rt} {a : Except SubstrateError Ruling}
    (he : (rule report).exec h = some (a, h')) : ∃ r, a = .ok r ∧
      (r.accepted = true ↔ Upheld rt h.server report) ∧
      (r.accepted = true → h' = h ∧ r = upheldRuling rt h.server report) := by
  rw [rule] at he
  -- the gates in turn: one that refuses decides, one that lets pass leaves everything as it is
  have hbind : ∀ {r x : Ruling} {ok : ServerState env → Prop} {m : Op env rt Ruling}
      {k : Ruling → Op env rt Ruling} {h : Host env rt}, Gates r x ok m →
      (m >>= k).exec h = some (a, h') → ∃ y t, m.exec h = some (.ok y, t) ∧
        (k y).exec t = some (a, h') := by
    intro r x ok m k h hg he
    rcases Prog.exec_bind_eq_some.1 he with ⟨e, h1, -⟩ | ⟨y, t, h1, h2⟩
    · obtain ⟨y, hy, -⟩ := hg _ _ _ h1
      cases hy
    · exact ⟨y, t, h1, h2⟩
  obtain ⟨y1, t1, e1, he⟩ := hbind gates_guardInFlight he
  obtain ⟨y2, t2, e2, he⟩ := hbind gates_stageBackupEncryptionStatus he
  obtain ⟨y3, t3, e3, he⟩ := hbind gates_stageOwnerObjective he
  obtain ⟨z1, hz1, h1, k1⟩ := gates_guardInFlight _ _ _ e1
  obtain ⟨z2, hz2, h2, k2⟩ := gates_stageBackupEncryptionStatus _ _ _ e2
  obtain ⟨z3, hz3, h3, k3⟩ := gates_stageOwnerObjective _ _ _ e3
  obtain ⟨y4, ha, h4, k4⟩ := stageCompression_exec he
  cases hz1
  cases hz2
  cases hz3
  refine ⟨y4, ha, ⟨fun hacc => ?_, fun hup => ?_⟩, fun hacc => ?_⟩
  · obtain ⟨a3, c4⟩ := h4.1 hacc
    obtain ⟨a2, c3⟩ := h3.1 a3
    obtain ⟨a1, c2⟩ := h2.1 a2
    obtain ⟨a0, c1⟩ := h1.1 a1
    obtain ⟨rfl, -⟩ := k3 a3
    obtain ⟨rfl, -⟩ := k2 a2
    obtain ⟨rfl, -⟩ := k1 a1
    exact ⟨a0, c1, c2, c3, c4⟩
  · have a1 := h1.2 ⟨hup.accepted, hup.single⟩
    obtain ⟨rfl, rfl⟩ := k1 a1
    have a2 := h2.2 ⟨a1, hup.admissible.backup⟩
    obtain ⟨rfl, -⟩ := k2 a2
    have a3 := h3.2 ⟨a2, hup.admissible.objective⟩
    obtain ⟨rfl, -⟩ := k3 a3
    exact h4.2 ⟨a3, hup.admissible.compression⟩
  · obtain ⟨a3, -⟩ := h4.1 hacc
    obtain ⟨a2, -⟩ := h3.1 a3
    obtain ⟨a1, -⟩ := h2.1 a2
    obtain ⟨rfl, rfl⟩ := k1 a1
    obtain ⟨rfl, rfl⟩ := k2 a2
    obtain ⟨rfl, rfl⟩ := k3 a3
    obtain ⟨rfl, rfl⟩ := k4 hacc
    exact ⟨rfl, rfl⟩

end Myco.Tropism
