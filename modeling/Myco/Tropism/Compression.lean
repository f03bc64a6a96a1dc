import Myco.Substrate.Tips
import Myco.Tropism.MigrationLog

/-!
# Selective compression

The rules of `compression.rs`, the scan of `run_loop` for compressions that nothing attests, and
what `handle_submit_mutation` lets into the log. An event of a compression lies right on the
mutation that attests it, and what it lists was there, unprotected and old (`Attested`);
`submission_compresses` says that of one submission, whatever it holds.

The registry is looked up nowhere. So an event obeys the rule that it names just because the
submission did (`NamesItsRule`).
-/

namespace Myco.Tropism

open Myco.Lib Myco.Canonical Myco.Schema Myco.Substrate

variable {env : Env} {rt : Runtime}

/-! ### The rules -/

structure CompressionRule where
  ruleId : String
  description : String
  targetNodeTypePrefix : String
  minAgeCycles : UInt64
  aggregator : String

def seedCompressionRuleRegistry : List CompressionRule :=
  [⟨"raw_material_aggregate_v1",
    "Aggregate raw_material:* nodes older than 1000 cycles into a summary sporocarp.",
    "raw_material:", 1000, "sum_to_sporocarp"⟩,
   ⟨"federation_payload_retention_v1",
    "Drop federation_received:* payloads past 1000-cycle retention.",
    "federation_received:", 1000, "drop_after_retention"⟩,
   ⟨"trajectory_archive_v1",
    "Archive axis_perturbed:* trajectory clusters past the active 1000-cycle window.",
    "axis_perturbed:", 1000, "archive"⟩]

/-- Its rule is in the registry, and what it lists has the type and the age that the rule wants. -/
def ObeysRule (log : List DagNode) (cycle : UInt64) (w : CompressionWitness) : Prop :=
  ∃ rule ∈ seedCompressionRuleRegistry, rule.ruleId = w.ruleId ∧
    ∀ h ∈ w.compressedNodeHashes, ∃ m ∈ log, m.hash = h ∧
      startsWith rule.targetNodeTypePrefix m.nodeType ∧
      rule.minAgeCycles ≤ saturatingSub cycle m.createdAtCycle

/-! ### The scan -/

def mutationCompressionType : String := "mutation:compression"

/-- One turn of the scan. -/
def c52Finding (nodes : List DagNode) (node : DagNode) : Option String :=
  if startsWith compressionEventPrefix node.nodeType then
    match node.parentHashes with
    | [] => some s!"compression_event node_type={node.nodeType} has no parents — orphan compression"
    | parentHash :: _ =>
      match nodes.find? (·.hash = parentHash) with
      | none => some s!"compression_event node_type={node.nodeType} parent hash not present in DAG"
      | some parent =>
        if parent.nodeType ≠ mutationCompressionType then
          some s!"compression_event node_type={node.nodeType} parent is {
            parent.nodeType} (expected mutation:compression)"
        else none
  else none

def c52Findings (nodes : List DagNode) : List String := nodes.filterMap (c52Finding nodes)

/-! ### What gets into the log -/

/-- An event of this compression: it lies on the mutation that attests it, and what it lists is in
the log, is not protected and is old. -/
structure Attested (log : List DagNode) (n : DagNode) (w : CompressionWitness) : Prop where
  type_eq : n.nodeType = compressionEventPrefix ++ w.ruleId
  content_eq : n.content = encodeCompressionEvent w n.createdAtCycle
  listed : ∀ h ∈ w.compressedNodeHashes, ∃ m ∈ log, m.hash = h ∧
    nodeTypeInInvariantSet m.nodeType seedCompressionInvariantSet = false ∧
    seedCompressionInvariantSet.recentCyclesFloor ≤
      saturatingSub n.createdAtCycle m.createdAtCycle
  attestation : ∃ m ∈ log, m.nodeType = mutationCompressionType ∧ n.parentHashes = [m.hash]

/-- If the node is the event of a compression, then of one that is attested and has `P`. -/
def Compresses (P : List DagNode → UInt64 → CompressionWitness → Prop) (log : List DagNode)
    (n : DagNode) : Prop :=
  startsWith compressionEventPrefix n.nodeType →
    ∃ w, Attested log n w ∧ P log n.createdAtCycle w

variable {P : List DagNode → UInt64 → CompressionWitness → Prop}

theorem c52Finding_append {nodes ns : List DagNode} {n : DagNode}
    (h : c52Finding nodes n = none) : c52Finding (nodes ++ ns) n = none := by
  unfold c52Finding at h ⊢
  split
  · rename_i hs
    rw [if_pos hs] at h
    cases hp : n.parentHashes with
    | nil =>
      rw [hp] at h
      cases h
    | cons parentHash rest =>
      rw [hp] at h
      dsimp only at h ⊢
      cases hf : nodes.find? (·.hash = parentHash) with
      | none =>
        rw [hf] at h
        cases h
      | some parent =>
        rw [List.find?_append, hf]
        rw [hf] at h
        exact h
  · rfl

theorem Attested.no_finding {log : List DagNode} {n : DagNode} {w : CompressionWitness}
    (h : Attested log n w) (hnd : (log.map DagNode.hash).Nodup) : c52Finding log n = none := by
  obtain ⟨m, hm, ht, hp⟩ := h.attestation
  have hfind : log.find? (·.hash = m.hash) = some m := by
    have hsome : (log.find? (·.hash = m.hash)).isSome :=
      List.find?_isSome.2 ⟨m, hm, by simp⟩
    obtain ⟨m', hm'⟩ := Option.isSome_iff_exists.1 hsome
    have heq : m'.hash = m.hash := by simpa using List.find?_some hm'
    rwa [List.inj_on_of_nodup_map hnd (List.mem_of_find?_eq_some hm') hm heq] at hm'
  unfold c52Finding
  rw [hp]
  simp only [hfind, ht, ne_eq, not_true, if_false, ite_self]

/-- A log that grows by nothing but attested compressions stays without findings. -/
theorem c52Findings_grows {l l' : List DagNode} (hg : Grows (Compresses P) l l')
    (hnd : (l'.map DagNode.hash).Nodup) (h : c52Findings l = []) : c52Findings l' = [] := by
  induction hg with
  | refl => exact h
  | @snoc ys n hys hn ih =>
    rw [List.map_append] at hnd
    have hnd' : (ys.map DagNode.hash).Nodup := hnd.of_append_left
    have hold := List.filterMap_eq_nil_iff.1 (ih hnd')
    refine List.filterMap_eq_nil_iff.2 fun m hm => ?_
    rcases List.mem_append.1 hm with hm | hm
    · exact c52Finding_append (hold m hm)
    · cases List.mem_singleton.1 hm
      by_cases hs : startsWith compressionEventPrefix n.nodeType
      · obtain ⟨w, hw, -⟩ := hn hs
        exact c52Finding_append (hw.no_finding hnd')
      · rw [c52Finding, if_neg hs]

/-! ### Ruling and recording -/

/-- Looks at the events of compressions. -/
def compressions : Watch where
  texts := compressionEventPrefix :: cultivationTexts
  View := Unit
  see _ := ()
  uncommon := by decide
  cultivation := by decide

theorem sedentary_compressions : compressions.Sedentary := ⟨by decide, fun _ _ => rfl⟩

theorem grows_of_shuns {s s' : ServerState env} (h : Shuns [compressionEventPrefix] s s') :
    Grows (Compresses P) s.nodes s'.nodes := by
  obtain ⟨ns, hn, hns⟩ := h.nodes
  rw [hn]
  exact .of_forall_mem fun n hm _ hs => absurd ⟨_, List.mem_cons_self, hs⟩ (hns n hm)

theorem grows_of_aside {s s' : ServerState env} (h : Aside compressions s s') :
    Grows (Compresses P) s.nodes s'.nodes := grows_of_shuns (h.shuns (by decide))

theorem listed_of_declared {s : ServerState env} {content : Bytes} {w : CompressionWitness}
    (hw : declaredCompression? s content = some w) :
    ∀ h ∈ w.compressedNodeHashes, ∃ m ∈ s.nodes, m.hash = h ∧
      nodeTypeInInvariantSet m.nodeType seedCompressionInvariantSet = false ∧
      seedCompressionInvariantSet.recentCyclesFloor ≤
        saturatingSub s.cycleCounter m.createdAtCycle := by
  intro h hh
  have hnone : w.compressedNodeHashes.findSome?
      (compressionViolation s.nodes s.cycleCounter w.ruleId) = none := by
    simpa using (Option.filter_eq_some_iff.1 hw).2
  have hviol := List.findSome?_eq_none_iff.1 hnone h hh
  unfold compressionViolation at hviol
  split at hviol
  · cases hviol
  · rename_i m hm
    split at hviol
    · cases hviol
    · rename_i hprot
      dsimp only at hviol
      split at hviol
      · cases hviol
      · rename_i hage
        have heq : m.hash = h := by simpa using List.find?_some hm
        exact ⟨m, List.mem_of_find?_eq_some hm, heq, Bool.eq_false_iff.2 hprot,
          UInt64.not_lt.1 hage⟩

section

variable {report : MutationReport} {r : Ruling} {w : CompressionWitness} {h h' : Host env rt}
  {x : Except SubstrateError Recorded}

/-- An event of this type is put on the tip; its content may tell the cycle. -/
def Puts (nodeType : String) (content : UInt64 → Bytes) (h h' : Host env rt) : Prop :=
  Appends ⟨h.server.tipParents, nodeType, h.server.cycleCounter, content h.server.cycleCounter⟩
    h.server h'.server

theorem does_put {what nodeType : String} {content : Bytes} (ht : nodeType ≠ "") :
    Does HostCollided (Puts nodeType fun _ => content)
      (insertEvent what nodeType content : Op env rt NodeHash) :=
  does_insertEvent ht fun _ _ ha => ha

theorem spares_recordMutation :
    Within (Spares compressions) (recordMutation report r : Op env rt (Option NodeHash)) :=
  (leaves_recordMutation (by decide)).mono fun _ _ => Leaves.spares

theorem spares_afterCompression {d c : Option NodeHash} : Within (Spares compressions) (do
    let evolutionEventHash ← recordEvolution report
    let (started, rolledBack) ← migrate report r
    abortMigration report r
    pure ⟨d, c, evolutionEventHash, started, rolledBack⟩ : Op env rt Recorded) :=
  within_bind (sedentary_compressions.recordEvolution.mono fun _ _ => Leaves.spares) fun _ =>
    within_bind sedentary_compressions.migrate fun _ =>
    within_bind sedentary_compressions.abortMigration fun _ => within_pure

/-- Where nothing is staged no compression is recorded. -/
theorem spares_record_unstaged (h : r.staged r.compressionWitness = none) :
    Within (Spares compressions) (record report r : Op env rt Recorded) := by
  have hrecord : (recordCompression r : Op env rt (Option NodeHash)) = pure none := by
    rw [recordCompression, h]
  rw [record, hrecord]
  refine within_bind spares_recordMutation fun _ => ?_
  refine within_bind ((leaves_commitBackupEncryptionStatus (by decide) fun _ _ => rfl).mono
    fun _ _ => Leaves.spares) fun _ => ?_
  refine within_bind ((leaves_commitOwnerObjective (by decide) fun _ _ => rfl).mono
    fun _ _ => Leaves.spares) fun _ => ?_
  exact within_bind within_pure fun _ => spares_afterCompression

theorem does_putCompression (hacc : r.accepted = true) (hw : r.compressionWitness = some w) :
    Does HostCollided (Puts (compressionEventPrefix ++ w.ruleId) (encodeCompressionEvent w))
      (recordCompression r : Op env rt (Option NodeHash)) := by
  have hne : compressionEventPrefix ++ w.ruleId ≠ "" :=
    @ne_empty_of_startsWith _ mutationPrefix _ startsWith_append (by decide)
  rw [recordCompression, Ruling.staged, if_pos hacc, hw]
  intro h x h' he
  rw [Prog.exec_get_bind] at he
  exact (does_some (does_put hne) h x h' he).imp fun ⟨hr, ha⟩ => ⟨hr, ha⟩

/-- The mutation and the event right on it, of what is declared. -/
theorem grows_of_puts {content : Bytes} {t u : Host env rt}
    (hp : ∀ m, P (h.server.nodes ++ [m]) h.server.cycleCounter w)
    (hd : declaredCompression? h.server content = some w)
    (h1 : Puts mutationCompressionType (fun _ => content) h t)
    (h2 : Puts (compressionEventPrefix ++ w.ruleId) (encodeCompressionEvent w) t u) :
    Grows (Compresses P) h.server.nodes u.server.nodes := by
  have hcycle : t.server.cycleCounter = h.server.cycleCounter := congrArg Live.cycleCounter h1.live
  have hmutation : ¬ startsWith compressionEventPrefix mutationCompressionType := by decide
  rw [h2.nodes, h1.nodes]
  refine (Grows.refl.snoc fun hs => absurd hs hmutation).snoc fun _ => ⟨w, ⟨rfl, rfl, ?_, ?_⟩, ?_⟩
  · intro hash hh
    obtain ⟨m, hm, hrest⟩ := listed_of_declared hd hash hh
    refine ⟨m, List.mem_append_left _ hm, ?_⟩
    rw [← hcycle] at hrest
    exact hrest
  · refine ⟨_, List.mem_append_right _ (List.mem_singleton_self _), rfl, ?_⟩
    show t.server.tipParents = _
    rw [tipParents_eq, h1.nodes, tipOf, List.map_append, List.map_singleton, List.getLast?_concat]
    rfl
  · show P _ t.server.cycleCounter w
    rw [hcycle]
    exact hp _

/-- A compression that is staged is recorded right after its mutation. -/
theorem record_staged (hp : ∀ m, P (h.server.nodes ++ [m]) h.server.cycleCounter w)
    (hacc : r.accepted = true) (ht : report.mutationType = compressionType)
    (hw : r.compressionWitness = some w) (hb : r.backupEncryptionStatus = none)
    (ho : r.ownerObjective = none)
    (hd : declaredCompression? h.server report.contentCanonicalBytes = some w)
    (he : (record report r).exec h = some (x, h')) : Unless HostCollided
      (fun h h' => Grows (Compresses P) h.server.nodes h'.server.nodes) h h' := by
  have hmutation : (recordMutation report r : Op env rt (Option NodeHash)) =
      some <$> insertEvent "mutation" mutationCompressionType report.contentCanonicalBytes := by
    rw [recordMutation, if_pos hacc, ht]
    rfl
  have hcommits : (commitBackupEncryptionStatus r : Op env rt PUnit) = pure ⟨⟩ ∧
      (commitOwnerObjective r : Op env rt PUnit) = pure ⟨⟩ := by
    rw [commitBackupEncryptionStatus, commitOwnerObjective, hb, ho, Ruling.staged, Ruling.staged,
      if_pos hacc, if_pos hacc]
    exact ⟨rfl, rfl⟩
  rw [record, hmutation, hcommits.1, hcommits.2] at he
  simp only [pure_bind] at he
  have hrest : ∀ d, Within (Unless HostCollided fun t h' => ∃ u,
      Puts (compressionEventPrefix ++ w.ruleId) (encodeCompressionEvent w) t u ∧
      Spares compressions u h') (do
        let compressionEventHash ← recordCompression r
        let evolutionEventHash ← recordEvolution report
        let (started, rolledBack) ← migrate report r
        abortMigration report r
        pure ⟨d, compressionEventHash, evolutionEventHash, started, rolledBack⟩ :
          Op env rt Recorded) := fun d =>
    (does_putCompression hacc hw).bind_within
      (fun _ => (spares_afterCompression (d := d)).mono fun _ _ hs => ⟨hs.collided, fun _ => hs⟩)
      fun _ u _ h1 h2 => ⟨u, h1, h2⟩
  have hfirst : Does HostCollided (Puts mutationCompressionType
      fun _ => report.contentCanonicalBytes) (some <$> insertEvent "mutation"
        mutationCompressionType report.contentCanonicalBytes : Op env rt (Option NodeHash)) :=
    does_some (does_put (by decide))
  have hwhole := hfirst.bind_within hrest (T := fun h h' => ∃ t u,
    Puts mutationCompressionType (fun _ => report.contentCanonicalBytes) h t ∧
    Puts (compressionEventPrefix ++ w.ruleId) (encodeCompressionEvent w) t u ∧
    Spares compressions u h') fun h t h' h1 ⟨u, h2, h3⟩ => ⟨t, u, h1, h2, h3⟩
  exact (hwhole h x h' he).imp fun ⟨t, u, h1, h2, h3⟩ =>
    (grows_of_puts hp hd h1 h2).trans (grows_of_aside h3)

end

/-! ### A submission -/

/-- The request declares this compression, and nothing that it lists is spared. -/
structure Declares (s : ServerState env) (q : Message) (w : CompressionWitness) : Prop where
  mutationType : OrdMap.get "mutation_type" q.payload = some (.string compressionType)
  content : ∃ content, OrdMap.get "content_canonical_bytes" q.payload = some (.bytes content) ∧
    declaredCompression? s content = some w

section

variable {h h' : Host env rt} {q : Message}

theorem unless_grows (hs : Spares compressions h h') : Unless HostCollided
    (fun h h' => Grows (Compresses P) h.server.nodes h'.server.nodes) h h' :=
  ⟨hs.collided, fun _ => grows_of_aside hs⟩

/-- What stages a compression stages nothing else. -/
theorem upheldRuling_compression {s : ServerState env} {report : MutationReport}
    {w : CompressionWitness} (hw : (upheldRuling rt s report).compressionWitness = some w) :
    report.mutationType = compressionType ∧
    declaredCompression? s report.contentCanonicalBytes = some w ∧
    (upheldRuling rt s report).backupEncryptionStatus = none ∧
    (upheldRuling rt s report).ownerObjective = none := by
  have hbackup : ∀ r : Ruling, (r.stageBackup report).compressionWitness = r.compressionWitness :=
    fun r => by unfold Ruling.stageBackup; split <;> rfl
  have hobjective : ∀ r : Ruling,
      (r.stageObjective rt report).compressionWitness = r.compressionWitness :=
    fun r => by unfold Ruling.stageObjective; split <;> rfl
  by_cases ht : report.mutationType = compressionType
  · have hne : report.mutationType ≠ setBackupEncryptionStatusType ∧
        report.mutationType ≠ ownerObjectiveDeclarationType := by
      rw [ht]
      decide
    rw [upheldRuling, Ruling.stageBackup, if_neg hne.1, Ruling.stageObjective, if_neg hne.2,
      Ruling.stageCompression, if_pos ht] at hw ⊢
    exact ⟨ht, hw, rfl, rfl⟩
  · rw [upheldRuling, Ruling.stageCompression, if_neg ht, hobjective, hbackup] at hw
    cases hw

theorem submit_compresses {x : Except SubstrateError Submission}
    (hp : ∀ w, Declares h.server q w →
      ∀ m, P (h.server.nodes ++ [m]) h.server.cycleCounter w)
    (he : (submit q.payload).exec h = some (x, h')) : Unless HostCollided
      (fun h h' => Grows (Compresses P) h.server.nodes h'.server.nodes) h h' := by
  rw [submit] at he
  rcases Prog.exec_bind_eq_some.1 he with ⟨e, h1, -⟩ | ⟨reply, t, h1, h2⟩
  · exact unless_grows (spares_callPython _ _ _ h1)
  rcases callPython_cases h1 with ⟨w, reply', w', hpy, hd, hr, rfl⟩ | ⟨e', hr, -⟩
  · cases hr
    obtain ⟨report, rfl, hsub⟩ :=
      handleSubmitMutation_cases (show handleSubmitMutation w q.payload = .ok (reply, w') from hd)
    rcases Prog.exec_bind_eq_some.1 h2 with ⟨e, h3, -⟩ | ⟨r, t, h3, h4⟩
    · obtain ⟨r, hr, -⟩ := rule_exec h3
      cases hr
    obtain ⟨_, hr, hacc, hsame⟩ := rule_exec h3
    cases hr
    obtain ⟨y, h5⟩ := exec_of_bind_pure h4
    cases hstaged : r.staged r.compressionWitness with
    | none =>
      have hruled : Spares compressions { h with python := some w' } t :=
        (leaves_rule.mono fun _ _ => Leaves.spares) _ _ _ h3
      exact unless_grows (IsTrans.trans (r := Spares compressions) _ t _ hruled
        (spares_record_unstaged hstaged _ _ _ h5))
    | some witness =>
      have haccd : r.accepted = true := by
        by_contra hno
        rw [Ruling.staged, if_neg hno] at hstaged
        cases hstaged
      obtain ⟨rfl, hr⟩ := hsame haccd
      rw [Ruling.staged, if_pos haccd, hr] at hstaged
      obtain ⟨ht, hdecl, hb, ho⟩ := upheldRuling_compression hstaged
      have hdeclares : Declares h.server q witness :=
        ⟨ht ▸ hsub.mutationType, _, hsub.content, hdecl⟩
      have hgrows := record_staged (h := { h with python := some w' }) (hp _ hdeclares) haccd ht
        (hr ▸ hstaged) (hr ▸ hb) (hr ▸ ho) hdecl h5
      exact ⟨hgrows.stays, hgrows.holds⟩
  · cases hr

theorem submission_compresses {x : Except SubstrateError (Option Message)}
    (hp : ∀ w, Declares h.server q w →
      ∀ m, P (h.server.nodes ++ [m]) h.server.cycleCounter w)
    (he : (handleSubmitMutationRequest q).exec h = some (x, h')) : Unless HostCollided
      (fun h h' => Grows (Compresses P) h.server.nodes h'.server.nodes) h h' := by
  rw [handleSubmitMutationRequest] at he
  split at he
  · obtain ⟨y, h1⟩ := exec_of_bind_pure he
    exact unless_grows (spares_immune _ _ _ h1)
  · split at he
    · obtain ⟨y, h1⟩ := exec_of_bind_pure he
      exact unless_grows (spares_immune _ _ _ h1)
    · obtain ⟨y, h1⟩ := exec_of_bind_pure he
      exact submit_compresses hp h1

end

/-! ### Runs -/

/-- A submission, or anything else that the substrate does: no other code writes the event of a
compression. -/
inductive Passage where
  | submission (request : Message)
  | elsewhere

inductive Passes : Host env rt → Passage → Host env rt → Prop
  | submission {h h' : Host env rt} {request : Message}
      {x : Except SubstrateError (Option Message)} :
      (handleSubmitMutationRequest request).exec h = some (x, h') →
      Passes h (.submission request) h'
  | elsewhere {h h' : Host env rt} :
      Shuns [compressionEventPrefix] h.server h'.server → Passes h .elsewhere h'

/-- A rule of the registry has this name, and all that is listed is of the type that it targets. -/
def NamesRule (nodes : List DagNode) (w : CompressionWitness) : Prop :=
  ∃ rule ∈ seedCompressionRuleRegistry, rule.ruleId = w.ruleId ∧
    ∀ m ∈ nodes, m.hash ∈ w.compressedNodeHashes → startsWith rule.targetNodeTypePrefix m.nodeType

/-- So does the witness of a compression that is submitted. -/
def Passage.NamesItsRule (p : Passage) (nodes : List DagNode) : Prop :=
  ∀ request content w, p = .submission request →
    OrdMap.get "mutation_type" request.payload = some (.string compressionType) →
    OrdMap.get "content_canonical_bytes" request.payload = some (.bytes content) →
    decodeCompressionWitnessMinimal content = some w → NamesRule nodes w

section

variable {h h' : Host env rt}

theorem obeysRule_of_declares {s : ServerState env} {q : Message} {w : CompressionWitness}
    (hd : Declares s q w) (hn : Passage.NamesItsRule (.submission q) s.nodes) (m : DagNode) :
    ObeysRule (s.nodes ++ [m]) s.cycleCounter w := by
  obtain ⟨content, hcontent, hdecl⟩ := hd.content
  obtain ⟨rule, hrule, hid, htarget⟩ := hn q content w rfl hd.mutationType hcontent
    (Option.filter_eq_some_iff.1 hdecl).1
  have hage : ∀ rule ∈ seedCompressionRuleRegistry,
      rule.minAgeCycles ≤ seedCompressionInvariantSet.recentCyclesFloor := by decide
  refine ⟨rule, hrule, hid, fun hash hh => ?_⟩
  obtain ⟨n, hn, heq, -, hold⟩ := listed_of_declared hdecl hash hh
  exact ⟨n, List.mem_append_left _ hn, heq, htarget n hn (heq ▸ hh),
    UInt64.le_trans (hage rule hrule) hold⟩

theorem Passes.stays {p : Passage} (hp : Passes h p h') (hc : HostCollided h) :
    HostCollided h' := by
  cases hp with
  | submission he =>
    exact (submission_compresses (P := fun _ _ _ => True) (fun _ _ _ => trivial) he).stays hc
  | elsewhere hs => exact hs.collided hc

/-- What a passage adds to the log, if the compressions that it declares have `P`. -/
theorem Passes.grows {p : Passage} (hp : Passes h p h') (hs : ¬ HostCollided h')
    (hP : ∀ q w, p = .submission q → Declares h.server q w →
      ∀ m, P (h.server.nodes ++ [m]) h.server.cycleCounter w) :
    Grows (Compresses P) h.server.nodes h'.server.nodes := by
  cases hp with
  | submission he => exact (submission_compresses (fun w => hP _ w rfl) he).holds hs
  | elsewhere h => exact grows_of_shuns h

/-- What a run adds to the log, if what its passages declare has `P`. -/
theorem passes_grows {ps : List Passage} (hrun : Path Passes h ps h') (hs : ¬ HostCollided h')
    (hP : Path.Always Passes (fun u p _ => ∀ q w, p = .submission q → Declares u.server q w →
      ∀ m, P (u.server.nodes ++ [m]) u.server.cycleCounter w) h ps h') :
    Grows (Compresses P) h.server.nodes h'.server.nodes := by
  have hall : Path.Always Passes (fun u p _ => ∀ q w, p = .submission q → Declares u.server q w →
      ∀ m, P (u.server.nodes ++ [m]) u.server.cycleCounter w) h (ps ++ []) h' := by
    rwa [List.append_nil]
  have hkept : ¬ HostCollided h' → Grows (Compresses P) h.server.nodes h'.server.nodes :=
    hall.keeps (I := fun u => ¬ HostCollided u → Grows (Compresses P) h.server.nodes u.server.nodes)
      (fun u p v hstep ih hPu hv => (ih fun hc => hv (hstep.stays hc)).trans (hstep.grows hv hPu))
      (fun _ => .refl) hrun .nil
  exact hkept hs

/-- Every compression that a run records is attested, and the scan finds nothing. -/
theorem compressions_attested {ps : List Passage} (hrun : Path Passes h ps h')
    (hs : ¬ HostCollided h') (hscan : c52Findings h.server.nodes = []) :
    Grows (Compresses fun _ _ _ => True) h.server.nodes h'.server.nodes ∧
    c52Findings h'.server.nodes = [] := by
  have hgrows : Grows (Compresses fun _ _ _ => True) h.server.nodes h'.server.nodes :=
    passes_grows hrun hs fun _ _ _ _ _ _ _ _ _ _ _ _ _ _ => trivial
  exact ⟨hgrows, c52Findings_grows hgrows h'.server.ledger.recorded.nodup hscan⟩

/-- If the submissions of a run name their rules, the events obey them. -/
theorem compressions_obey {ps : List Passage} (hrun : Path Passes h ps h') (hs : ¬ HostCollided h')
    (hscan : c52Findings h.server.nodes = [])
    (hrules : Path.Always Passes (fun u p _ => p.NamesItsRule u.server.nodes) h ps h') :
    Grows (Compresses ObeysRule) h.server.nodes h'.server.nodes ∧
    c52Findings h'.server.nodes = [] := by
  have hgrows : Grows (Compresses ObeysRule) h.server.nodes h'.server.nodes := by
    refine passes_grows hrun hs fun ys p zs u v hps hu hstep hrest q w hq hd => ?_
    have hn := hrules ys p zs u v hps hu hstep hrest
    exact obeysRule_of_declares hd (hq ▸ hn)
  exact ⟨hgrows, c52Findings_grows hgrows h'.server.ledger.recorded.nodup hscan⟩

end

/-! ### A rule that is not looked up -/

section

/-- What an event lists. -/
def compressedHashes? (n : DagNode) : Option (List NodeHash) :=
  (decodeMap? n.content).bind fun m => (items? m "compressed_node_hashes").map hashesOf

theorem Attested.lists {log : List DagNode} {n : DagNode} {w : CompressionWitness}
    (h : Attested log n w) (hmem : n.content.length ≤ isizeMax) :
    compressedHashes? n = some w.compressedNodeHashes := by
  have hwf : ∀ e ∈ [("rule_id", Value.string w.ruleId),
      ("compressed_node_hashes", .array (w.compressedNodeHashes.map hashValue)),
      ("aggregate_summary", .bytes w.aggregateSummary),
      ("witness_at_dag_tip", hashValue w.attestationDagTip),
      ("emitted_at_cycle", .uint n.createdAtCycle)], e.2.WF := by
    have hitems : WFItems (w.compressedNodeHashes.map hashValue) := by
      rw [wfItems_iff]
      intro v hv
      obtain ⟨h, -, rfl⟩ := List.mem_map.1 hv
      trivial
    simp [Value.WF, hitems, hashValue]
  rw [h.content_eq, encodeCompressionEvent] at hmem
  have hget : items? (OrdMap.ofList utf8 [("rule_id", Value.string w.ruleId),
      ("compressed_node_hashes", .array (w.compressedNodeHashes.map hashValue)),
      ("aggregate_summary", .bytes w.aggregateSummary),
      ("witness_at_dag_tip", hashValue w.attestationDagTip),
      ("emitted_at_cycle", .uint n.createdAtCycle)]) "compressed_node_hashes" =
      some (w.compressedNodeHashes.map hashValue) :=
    items?_eq (by simp [get_mapOf, OrdMap.get_cons])
  rw [compressedHashes?, h.content_eq, encodeCompressionEvent, decodeMap?_cbEncode hmem hwf,
    Option.bind_some, hget, Option.map_some, hashesOf_map_hashValue]

def foldedEnv : Env := { smallEnv with blake3 := foldHash }

/-- Some node that is old and that nothing protects. -/
def oldNode (nodeType : String) : Insertion := ⟨[], nodeType, 0, [1]⟩

/-- A substrate of a thousand cycles that has one node, and its worker. -/
def aged (nodeType : String) : Host foldedEnv wholeNumbers where
  server := { stateOf foldedEnv [oldNode nodeType] with
    cycleCounter := 1000
    handshakeComplete := true }
  python := some .fresh

def oldHash : NodeHash := ((oldNode "").node foldHash).hash

def oldWitness : Bytes := cbEncode [("rule_id", .string "raw_material_aggregate_v1"),
  ("compressed_node_hashes", .array [hashValue oldHash]), ("aggregate_summary", .bytes []),
  ("attestation_dag_tip", hashValue oldHash), ("semantic_lossy", .bool true),
  ("causal_recoverability_argument", .string "")]

/-- Compresses the node under the first rule. -/
def compressOld : Message := mutationIn false compressionType oldWitness

/-- What the submission leaves: two nodes more, of which the last is the event, and no collision. -/
def compressesOld (nodeType : String)
    (p : Except SubstrateError (Option Message) × Host foldedEnv wholeNumbers) : Bool :=
  let calls := p.2.server.ledger.calls.map (Insertion.node foldHash)
  decide (p.2.server.nodes.map (fun n => (n.nodeType, decide (n.content.length ≤ isizeMax))) =
    [(nodeType, true), (mutationCompressionType, true),
      ("compression_event:raw_material_aggregate_v1", true)]) &&
  decide (p.2.server.nodes.map compressedHashes? = [none, some [oldHash], some [oldHash]]) &&
  decide (∀ m ∈ calls, ∀ n ∈ calls,
    merkleHash foldHash m.parentHashes m.content = merkleHash foldHash n.parentHashes n.content →
    m.parentHashes = n.parentHashes ∧ m.content = n.content)

theorem not_startsWith_rawMaterial : ∀ rule ∈ seedCompressionRuleRegistry,
    rule.ruleId = "raw_material_aggregate_v1" → ∀ t ∈ ["sporocarp:appetite",
      mutationCompressionType], ¬ startsWith rule.targetNodeTypePrefix t := by decide

/-- A sporocarp is compressed under the rule for raw material. -/
theorem rule_not_obeyed : ∃ h' : Host foldedEnv wholeNumbers,
    Path Passes (aged "sporocarp:appetite") [.submission compressOld] h' ∧ ¬ HostCollided h' ∧
    c52Findings (aged "sporocarp:appetite").server.nodes = [] ∧
    ¬ Grows (Compresses ObeysRule) (aged "sporocarp:appetite").server.nodes h'.server.nodes := by
  have hrun : ((handleSubmitMutationRequest compressOld).exec (aged "sporocarp:appetite")).any
      (compressesOld "sporocarp:appetite") = true := by decide +kernel
  obtain ⟨⟨x, h'⟩, he, hx⟩ := (Option.any_eq_true _ _).1 hrun
  obtain ⟨hx, hsound⟩ := Bool.and_eq_true_iff.1 hx
  obtain ⟨htypes, hlists⟩ := Bool.and_eq_true_iff.1 hx
  have htypes := of_decide_eq_true htypes
  have hlists := of_decide_eq_true hlists
  have hsound := of_decide_eq_true hsound
  refine ⟨h', .cons (.submission he) .nil, fun hc => hc hsound,
    by decide, fun hg => ?_⟩
  obtain ⟨es, hnodes, hes⟩ := hg.exists_append
  have hold : (aged "sporocarp:appetite").server.nodes.length = 1 := by decide
  obtain ⟨o, ho⟩ := List.length_eq_one_iff.1 hold
  rw [ho] at hnodes hes
  change h'.server.nodes = o :: es at hnodes
  rw [hnodes] at htypes hlists
  obtain ⟨m, n, rfl⟩ : ∃ m n, es = [m, n] := by
    have hlen := congrArg List.length htypes
    exact List.length_eq_two.1 (by simpa using hlen)
  simp only [List.map_cons, List.map_nil, List.cons.injEq, Prod.mk.injEq, and_true] at htypes hlists
  obtain ⟨⟨hto, -⟩, ⟨htm, -⟩, htn, hfits⟩ := htypes
  obtain ⟨w, hw, rule, hrule, hid, hobeys⟩ := hes [m] n [] rfl (by rw [htn]; decide)
  have hruleId : w.ruleId = "raw_material_aggregate_v1" := by
    have heq : compressionEventPrefix ++ w.ruleId =
        compressionEventPrefix ++ "raw_material_aggregate_v1" :=
      hw.type_eq.symm.trans (htn.trans (by decide))
    exact String.append_right_inj _ |>.1 heq
  have hhashes := (hw.lists (of_decide_eq_true hfits)).symm.trans hlists.2.2
  obtain ⟨m', hm', -, hstarts, -⟩ := hobeys oldHash (by rw [Option.some.inj hhashes]; simp)
  have hnot := not_startsWith_rawMaterial rule hrule (hid.trans hruleId)
  rcases List.mem_pair.1 hm' with rfl | rfl
  · exact hnot _ (by simp) (hto ▸ hstarts)
  · exact hnot _ (by simp) (htm ▸ hstarts)

theorem compressOld_names : (Passage.submission compressOld).NamesItsRule
    (aged "raw_material:text").server.nodes := by
  intro request content w hq _ hcontent hw
  cases hq
  have hread : (OrdMap.get "content_canonical_bytes" compressOld.payload).all fun v =>
      v.bytes?.all fun b => (decodeCompressionWitnessMinimal b).all fun w =>
        w.ruleId == "raw_material_aggregate_v1" := by decide +kernel
  rw [hcontent] at hread
  have hid : (decodeCompressionWitnessMinimal content).all fun w =>
      w.ruleId == "raw_material_aggregate_v1" := hread
  rw [hw] at hid
  refine ⟨_, List.mem_cons_self, (beq_iff_eq.1 hid).symm, fun m hm _ => ?_⟩
  have htypes : ∀ m ∈ (aged "raw_material:text").server.nodes,
      startsWith "raw_material:" m.nodeType := by decide
  exact htypes m hm

/-- Raw material is. -/
theorem compressions_obey_old : ∃ h' : Host foldedEnv wholeNumbers,
    Path Passes (aged "raw_material:text") [.submission compressOld] h' ∧
    Grows (Compresses ObeysRule) (aged "raw_material:text").server.nodes h'.server.nodes ∧
    c52Findings h'.server.nodes = [] := by
  have hrun : ((handleSubmitMutationRequest compressOld).exec (aged "raw_material:text")).any
      (compressesOld "raw_material:text") = true := by decide +kernel
  obtain ⟨⟨x, h'⟩, he, hx⟩ := (Option.any_eq_true _ _).1 hrun
  have hsound := of_decide_eq_true (Bool.and_eq_true_iff.1 hx).2
  have hpath : Path Passes (aged "raw_material:text") [.submission compressOld] h' :=
    .cons (.submission he) .nil
  refine ⟨h', hpath, compressions_obey hpath (fun hc => hc hsound) (by decide) ?_⟩
  intro ys p zs u v hps hu _ _
  cases ys with
  | nil =>
    cases hps
    cases Path.nil_iff.1 hu
    exact compressOld_names
  | cons y ys => simp at hps

end

end Myco.Tropism
