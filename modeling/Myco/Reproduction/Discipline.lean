import Myco.Reproduction.Child

/-!
# What a request for a child does

A request is refused, and then no birth is recorded (`Rests`); or a child is saved for it, and the
log has two nodes more: the emission of the spore and the record of the birth (`Born`). What was
checked in between is in `Prepared`.
-/

namespace Myco.Reproduction

open Myco.Lib Myco.Canonical Myco.Schema Myco.Substrate Myco.Federation Myco.Consensus
  Myco.Prune Myco.Tropism

variable {env : Env} {rt : Runtime}

/-! ### The records of births -/

def birthTexts : List String := [sporeEmissionPrefix, genesisAttestedPrefix]

def births (nodes : List DagNode) : List DagNode :=
  nodes.filter fun n => Watched birthTexts n.nodeType

def attestedCount (nodes : List DagNode) : Nat :=
  nodes.countP fun n => startsWith genesisAttestedPrefix n.nodeType

section

variable {nodes : List DagNode}

theorem childrenSpawnedCount_births :
    childrenSpawnedCount (births nodes) = childrenSpawnedCount nodes := by
  rw [childrenSpawnedCount, births, List.countP_filter, childrenSpawnedCount]
  refine List.countP_congr fun n _ => ?_
  simp only [Bool.and_eq_true, decide_eq_true_eq, and_iff_left_iff_imp]
  exact fun h => ⟨_, List.mem_cons_self, h⟩

theorem attestedCount_births : attestedCount (births nodes) = attestedCount nodes := by
  rw [attestedCount, births, List.countP_filter, attestedCount]
  refine List.countP_congr fun n _ => ?_
  simp only [Bool.and_eq_true, decide_eq_true_eq, and_iff_left_iff_imp]
  exact fun h => ⟨_, List.mem_cons_of_mem _ List.mem_cons_self, h⟩

theorem spawnAnchors_births : spawnAnchors (births nodes) = spawnAnchors nodes := by
  rw [spawnAnchors, births, List.filter_filter, spawnAnchors]
  congr 1
  refine List.filter_congr fun n _ => ?_
  rw [Bool.eq_iff_iff]
  simp only [Bool.and_eq_true, decide_eq_true_eq, and_iff_left_iff_imp]
  exact fun h => ⟨_, List.mem_cons_of_mem _ List.mem_cons_self, h⟩

theorem not_births {p nodeType : String} (h : startsWith p nodeType)
    (hp : ∀ w ∈ birthTexts, Apart p w := by decide) : ¬ Watched birthTexts nodeType :=
  not_watched h hp

end

/-! ### Requests that come to nothing -/

/-- Nothing of these types is appended, and the files stay as they are. -/
structure Stays (ws : List String) (p p' : Parent env) : Prop where
  server : Shuns ws p.server p'.server
  disk : p'.disk = p.disk
  children : p'.children = p.children

/-- No birth is recorded and no child is saved. -/
structure Rests (p p' : Parent env) : Prop where
  server : Shuns birthTexts p.server p'.server
  disk : p'.disk = p.disk ∨ births p'.disk.nodes = births p'.server.nodes
  children : p'.children = p.children

variable {ws : List String}

instance : IsPreorder (Parent env) (Stays ws) where
  refl p := ⟨Std.Refl.refl p.server, rfl, rfl⟩
  trans _ _ _ h h' := ⟨IsTrans.trans _ _ _ h.server h'.server, h'.disk.trans h.disk,
    h'.children.trans h.children⟩

instance : IsPreorder (Parent env) Rests where
  refl p := ⟨Std.Refl.refl p.server, .inl rfl, rfl⟩
  trans p t p' h h' := by
    refine ⟨IsTrans.trans _ _ _ h.server h'.server, ?_, h'.children.trans h.children⟩
    rcases h'.disk with hd' | hd'
    · rcases h.disk with hd | hd
      · exact .inl (hd'.trans hd)
      · refine .inr ?_
        rw [hd', hd]
        exact h'.server.filter.symm
    · exact .inr hd'

theorem Stays.rests {p p' : Parent env} (h : Stays ws p p') (hw : ∀ w ∈ birthTexts, w ∈ ws) :
    Rests p p' := ⟨h.server.mono hw, .inl h.disk, h.children⟩

theorem stays_onServer {α : Type} {m : Handler env α} (h : Within (Shuns ws) m) :
    Within (Stays ws) (onServer m : Sprouting env α) :=
  within_zoom h fun _ _ hs => ⟨hs, rfl, rfl⟩

section

variable {o : Overrides} {fl : FloatDifference rt} {w : World rt} {request : Message}
  {childStateDir : String}

theorem rests_saveDagState : Within Rests (saveDagState w : Sprouting env PUnit) := by
  unfold saveDagState
  split
  · exact within_modify fun p => ⟨Std.Refl.refl p.server, .inr rfl, rfl⟩
  · exact within_throw

theorem rests_refuse {α : Type} {r : Refusal} : Within Rests (refuse w r : Sprouting env α) := by
  have hemit : Within (Stays birthTexts)
      (onServer (emitImmuneSporocarp r.detectorId r.detectorName r.evidence) :
        Sprouting env NodeHash) :=
    stays_onServer (shuns_emitImmuneSporocarp (not_births (p := immunePrefix) startsWith_append))
  refine within_bind (within_attempt (hemit.mono fun _ _ h => h.rests fun _ => id)) fun _ => ?_
  exact within_bind (within_attempt rests_saveDagState) fun _ => within_throw

theorem rests_verifySpawnCoAttestation :
    Within Rests (verifySpawnCoAttestation o w request : Sprouting env _) := by
  refine within_bind within_get fun p => ?_
  split
  · exact within_pure
  · exact rests_refuse
  · exact within_halt

theorem stays_depthOverrideExercised {content : Bytes} :
    Within (Stays (immunePrefix :: birthTexts)) ((onServer
      (emitSubstrateEvent depthOverrideExercisedType content)).attempt :
        Sprouting env (Except SubstrateError NodeHash)) :=
  within_attempt (stays_onServer (shuns_emitSubstrateEvent (not_watched_type (by decide))))

theorem rests_checkLineageDepth {a : VerifiedSpawnAttestation} :
    Within Rests (checkLineageDepth o w a : Sprouting env UInt64) := by
  refine within_bind within_get fun p => ?_
  dsimp only
  split
  · split
    · refine within_bind (stays_depthOverrideExercised.mono fun _ _ h => ?_) fun _ => within_pure
      exact h.rests fun _ hw => List.mem_cons_of_mem _ hw
    · exact rests_refuse
  · exact within_pure

theorem rests_checkLifetimeQuota :
    Within Rests (checkLifetimeQuota o w : Sprouting env PUnit) := by
  refine within_bind within_get fun p => ?_
  dsimp only
  split
  · exact rests_refuse
  · exact within_pure

theorem stays_prepareChildDir :
    Within (Stays ws) (prepareChildDir w childStateDir : Sprouting env PUnit) := by
  unfold prepareChildDir
  split
  · exact within_throw
  · split
    · exact within_throw
    · split
      · exact within_pure
      · exact within_throw

theorem stays_queryGradientSchemas :
    Within (Stays ws) (queryGradientSchemas w : Sprouting env _) := by
  unfold queryGradientSchemas
  split
  · exact within_throw
  · exact within_throw
  · exact within_pure

theorem stays_conceive {a : VerifiedSpawnAttestation} {childDepth : UInt64}
    {schemas : List (AxisSchemaInfo rt)} :
    Within (Stays ws) (conceive a childDepth schemas : Sprouting env _) := by
  have hclock : Within (Stays ws) (onServer readClock : Sprouting env Int64) :=
    stays_onServer shuns_readClock
  have hrest : ∀ (p : Parent env) (hint : Option (String × Int64)),
      Within (Stays ws) (if (immuneSummary p.server.nodes).isEmpty then
        pure ⟨ownId p.server, a.mintedChildId, a.sporeSchemaHash, a.childGenesisTimestampUnixNs,
          childDepth, hint, none, schemas⟩
      else onServer readClock >>= fun enteredAt =>
        pure ⟨ownId p.server, a.mintedChildId, a.sporeSchemaHash, a.childGenesisTimestampUnixNs,
          childDepth, hint, some (immuneSummary p.server.nodes, enteredAt), schemas⟩ :
        Sprouting env (Conception rt)) := by
    intro p hint
    split
    · exact within_pure
    · exact within_bind hclock fun _ => within_pure
  refine within_bind within_get fun p => ?_
  cases p.server.federation.listener with
  | none => exact hrest p none
  | some listener => exact within_bind hclock fun hintedAt => hrest p _

theorem stays_buildChild {events : List ChildEvent} :
    Within (Stays ws) (buildChild events : Sprouting env _) := by
  unfold buildChild
  split
  · exact within_halt
  · exact within_throw
  · exact within_pure

theorem rests_prepareChild :
    Within Rests (prepareChild o fl w request childStateDir : Sprouting env _) := by
  have hstays : ∀ {α : Type} {m : Sprouting env α}, Within (Stays birthTexts) m → Within Rests m :=
    fun hm => hm.mono fun _ _ h => h.rests fun _ => id
  exact within_bind rests_verifySpawnCoAttestation fun _ =>
    within_bind rests_checkLineageDepth fun _ => within_bind rests_checkLifetimeQuota fun _ =>
    within_bind (hstays stays_prepareChildDir) fun _ =>
    within_bind (hstays stays_queryGradientSchemas) fun _ =>
    within_bind (hstays stays_conceive) fun _ => within_bind (hstays stays_buildChild) fun _ =>
    within_pure

end

/-! ### What the gates let through -/

/-- The envelope that a request carries. -/
def envelope? (request : Message) : Option SpawnCosign :=
  (filledBytes? request "spawn_cosign_envelope").bind decodeSpawnCosign

/-- An anchor is this much later than another. -/
def LaterBy (interval earlier later : Int64) : Prop :=
  earlier < later ∧ interval.toInt ≤ later.toInt - earlier.toInt

/-- The gates let a request through that carries this envelope. -/
structure Passed (o : Overrides) (s : ServerState env) (request : Message)
    (a : VerifiedSpawnAttestation) (c : SpawnCosign) : Prop where
  envelope : envelope? request = some c
  decoded : decodeSpawnCosign a.envelopeBytes = some c
  parent : c.parentSubstrateId = ownId s
  minted : a.mintedChildId = env.blake3
    (mintedMessage c.parentSubstrateId c.sporeSchemaHash c.childGenesisTimestampUnixNs)
  genesisTime : a.childGenesisTimestampUnixNs = c.childGenesisTimestampUnixNs
  depthOverride : a.depthOverride = c.depthOverride
  later : ∀ b ∈ spawnAnchors s.nodes, LaterBy (effectiveRateMinIntervalNs o) b
    c.anchorTimestampUnixNs

theorem le_of_max? {ts : List Int64} {t u : Int64} (h : ts.max? = some t) (hu : u ∈ ts) :
    u ≤ t := by
  have hmax : ∀ a b : Int64, max a b = if a ≤ b then b else a := fun _ _ => rfl
  have : Std.LawfulOrderMax Int64 := {
    max_le_iff a b c := by
      rw [hmax]
      split
      · rename_i hab
        exact ⟨fun hb => ⟨Int64.le_trans hab hb, hb⟩, And.right⟩
      · rename_i hab
        exact ⟨fun ha => ⟨ha, Int64.le_trans (Int64.le_of_lt (Int64.not_le.1 hab)) ha⟩, And.left⟩
    max_eq_or a b := by
      rw [hmax]
      split
      · exact .inr rfl
      · exact .inl rfl }
  exact (List.max?_eq_some_iff.1 h).2 u hu

/-- A difference that saturates is no smaller than any number. -/
theorem laterBy_of_saturatingSub {interval earlier later : Int64} (h : earlier < later)
    (hs : ¬ saturatingSubI64 later earlier < interval) : LaterBy interval earlier later := by
  refine ⟨h, ?_⟩
  have h1 := Int64.lt_iff_toInt_lt.1 h
  have h2 := interval.toInt_lt
  rw [Int64.lt_iff_toInt_lt, saturatingSubI64, Int64.toInt_ofInt_of_le (by omega) (by omega)] at hs
  omega

theorem checkRate_ok {o : Overrides} {nodes : List DagNode} {anchorTs : Int64}
    (h : checkRate o nodes anchorTs = .ok ()) :
    ∀ b ∈ spawnAnchors nodes, LaterBy (effectiveRateMinIntervalNs o) b anchorTs := by
  intro b hb
  rw [checkRate] at h
  split at h
  · rename_i hnone
    rw [lastSpawnTs, List.max?_eq_none_iff] at hnone
    rw [hnone] at hb
    cases hb
  · rename_i prevTs hsome
    have hle : b ≤ prevTs := le_of_max? hsome hb
    dsimp only at h
    split at h
    · cases h
    · rename_i hlt
      split at h
      · cases h
      · rename_i hrate
        have hprev := laterBy_of_saturatingSub (Int64.not_le.1 hlt) hrate
        have hle' := Int64.le_iff_toInt_le.1 hle
        refine ⟨Int64.lt_of_le_of_lt hle hprev.1, ?_⟩
        have := hprev.2
        omega

theorem spawnGates_ok {o : Overrides} {s : ServerState env} {request : Message}
    {a : VerifiedSpawnAttestation} (h : spawnGates o s request = .ok a) :
    ∃ c, Passed o s request a c := by
  obtain ⟨⟨envelopeBytes, sporeSchema, c⟩, hread, h⟩ := bind_eq_ok.1 h
  obtain ⟨_, hparent, h⟩ := bind_eq_ok.1 h
  obtain ⟨_, -, h⟩ := bind_eq_ok.1 h
  obtain ⟨_, hrate, h⟩ := bind_eq_ok.1 h
  cases h
  have hid : c.parentSubstrateId = ownId s := by
    rw [checkParentId] at hparent
    split at hparent
    · cases hparent
    · rename_i hne
      exact not_not.1 hne
  have hfield : filledBytes? request "spawn_cosign_envelope" = some envelopeBytes ∧
      decodeSpawnCosign envelopeBytes = some c := by
    rw [readSpawn] at hread
    split at hread
    · cases hread
    · rename_i bytes hbytes
      split at hread
      · cases hread
      · split at hread
        · cases hread
        · rename_i c' hc
          cases hread
          exact ⟨hbytes, hc⟩
  refine ⟨c, ?_, hfield.2, hid, by rw [hid], rfl, rfl, checkRate_ok hrate⟩
  rw [envelope?, hfield.1, Option.bind_some, hfield.2]

/-! ### What is prepared -/

section

variable {o : Overrides} {fl : FloatDifference rt} {w : World rt} {request : Message}
  {childStateDir : String} {p t : Parent env} {a : VerifiedSpawnAttestation}

theorem refuse_ne_ok {α : Type} {r : Refusal} {x : α} :
    (refuse w r : Sprouting env α).exec p ≠ some (.ok x, t) := by
  intro h
  rw [refuse] at h
  obtain ⟨_, _, -, h⟩ := succeeds_attempt.exec_bind h
  obtain ⟨_, _, -, h⟩ := succeeds_attempt.exec_bind h
  cases h

theorem verifySpawnCoAttestation_ok
    (h : (verifySpawnCoAttestation o w request).exec p = some (.ok a, t)) :
    t = p ∧ spawnGates o p.server request = .ok a := by
  rw [verifySpawnCoAttestation, Prog.exec_get_bind] at h
  split at h
  · rename_i a' ha
    cases h
    exact ⟨rfl, ha⟩
  · exact absurd h refuse_ne_ok
  · cases h

theorem checkLineageDepth_ok {childDepth : UInt64}
    (h : (checkLineageDepth o w a).exec p = some (.ok childDepth, t)) :
    childDepth = saturatingAdd p.server.generationDepth 1 ∧
    (effectiveLineageDepthMax o < childDepth → a.depthOverride = true) ∧
    Stays (immunePrefix :: birthTexts) p t := by
  rw [checkLineageDepth, Prog.exec_get_bind] at h
  dsimp only at h
  split at h
  · split at h
    · rename_i hover
      obtain ⟨_, u, h1, h2⟩ := succeeds_attempt.exec_bind h
      cases h2
      exact ⟨rfl, fun _ => hover, stays_depthOverrideExercised _ _ _ h1⟩
    · exact absurd h refuse_ne_ok
  · rename_i hle
    cases h
    exact ⟨rfl, fun hlt => absurd hlt hle, Std.Refl.refl (r := Stays _) _⟩

theorem checkLifetimeQuota_ok {x : PUnit}
    (h : (checkLifetimeQuota o w).exec p = some (.ok x, t)) : t = p ∧
    saturatingAdd (UInt64.ofNat (childrenSpawnedCount p.server.nodes)) 1 ≤
      effectiveLifetimeQuota o := by
  rw [checkLifetimeQuota, Prog.exec_get_bind] at h
  dsimp only at h
  split at h
  · exact absurd h refuse_ne_ok
  · rename_i hle
    cases h
    exact ⟨rfl, UInt64.not_lt.1 hle⟩

theorem queryGradientSchemas_ok {schemas : List (AxisSchemaInfo rt)}
    (h : (queryGradientSchemas w).exec p = some (.ok schemas, t)) :
    w.pythonClient = some (.ok schemas) := by
  rw [queryGradientSchemas] at h
  split at h
  · cases h
  · cases h
  · rename_i schemas' hs
    cases h
    exact hs

theorem conceive_ok {childDepth : UInt64} {schemas : List (AxisSchemaInfo rt)} {c : Conception rt}
    (h : (conceive a childDepth schemas).exec p = some (.ok c, t)) :
    c.childId = a.mintedChildId ∧ c.genesisTimeUnixNs = a.childGenesisTimestampUnixNs ∧
    c.generationDepth = childDepth ∧ c.schemas = schemas ∧
    c.quarantine.isSome = !(immuneSummary p.server.nodes).isEmpty := by
  have hrest : ∀ (hint : Option (String × Int64)) (u : Parent env),
      (if (immuneSummary p.server.nodes).isEmpty then
        pure ⟨ownId p.server, a.mintedChildId, a.sporeSchemaHash, a.childGenesisTimestampUnixNs,
          childDepth, hint, none, schemas⟩
      else onServer readClock >>= fun enteredAt =>
        pure ⟨ownId p.server, a.mintedChildId, a.sporeSchemaHash, a.childGenesisTimestampUnixNs,
          childDepth, hint, some (immuneSummary p.server.nodes, enteredAt), schemas⟩ :
        Sprouting env (Conception rt)).exec u = some (.ok c, t) →
      c.childId = a.mintedChildId ∧ c.genesisTimeUnixNs = a.childGenesisTimestampUnixNs ∧
      c.generationDepth = childDepth ∧ c.schemas = schemas ∧
      c.quarantine.isSome = !(immuneSummary p.server.nodes).isEmpty := by
    intro hint u hu
    split at hu
    · rename_i hempty
      cases hu
      exact ⟨rfl, rfl, rfl, rfl, by rw [hempty]; rfl⟩
    · rename_i hsome
      rcases Prog.exec_bind_eq_some.1 hu with ⟨e, -, he⟩ | ⟨at_, v, -, h2⟩
      · cases he
      · cases h2
        exact ⟨rfl, rfl, rfl, rfl, by rw [Bool.eq_false_iff.2 hsome]; rfl⟩
  rw [conceive, Prog.exec_get_bind] at h
  cases hl : p.server.federation.listener with
  | none =>
    rw [hl] at h
    exact hrest none p h
  | some listener =>
    rw [hl] at h
    rcases Prog.exec_bind_eq_some.1 h with ⟨e, -, he⟩ | ⟨at_, u, -, h2⟩
    · cases he
    · exact hrest _ u h2

/-- What has been checked, and the child that has been made of it. -/
structure Prepared (o : Overrides) (fl : FloatDifference rt) (w : World rt) (request : Message)
    (p : Parent env) (a : VerifiedSpawnAttestation) (c : Conception rt)
    (child : Ledger env.blake3) : Prop where
  gates : spawnGates o p.server request = .ok a
  depth : c.generationDepth = saturatingAdd p.server.generationDepth 1
  overridden : effectiveLineageDepthMax o < c.generationDepth → a.depthOverride = true
  quota : saturatingAdd (UInt64.ofNat (childrenSpawnedCount p.server.nodes)) 1 ≤
    effectiveLifetimeQuota o
  childId : c.childId = a.mintedChildId
  genesisTime : c.genesisTimeUnixNs = a.childGenesisTimestampUnixNs
  quarantine : c.quarantine.isSome ↔ ∃ n ∈ p.server.nodes, startsWith immunePrefix n.nodeType
  schemas : w.pythonClient = some (.ok c.schemas)
  log : IsChildLog (childEvents fl c) child.nodes

theorem immuneSummary_isEmpty {nodes : List DagNode} :
    (!(immuneSummary nodes).isEmpty) = true ↔ ∃ n ∈ nodes, startsWith immunePrefix n.nodeType := by
  rw [Bool.not_eq_true', Bool.eq_false_iff, Ne, List.isEmpty_iff, immuneSummary,
    List.map_eq_nil_iff, List.filter_eq_nil_iff]
  simp

theorem Shuns.exists_iff {ws : List String} {s s' : ServerState env} (h : Shuns ws s s')
    {v : String} (hv : v ∈ ws) :
    (∃ n ∈ s'.nodes, startsWith v n.nodeType) ↔ ∃ n ∈ s.nodes, startsWith v n.nodeType := by
  obtain ⟨ns, hn, hns⟩ := h.nodes
  rw [hn]
  constructor
  · rintro ⟨n, hmem, hs⟩
    rcases List.mem_append.1 hmem with hmem | hmem
    · exact ⟨n, hmem, hs⟩
    · exact absurd ⟨v, hv, hs⟩ (hns n hmem)
  · rintro ⟨n, hmem, hs⟩
    exact ⟨n, List.mem_append_left _ hmem, hs⟩

theorem prepareChild_ok {c : Conception rt} {child : Ledger env.blake3}
    (h : (prepareChild o fl w request childStateDir).exec p = some (.ok (a, c, child), t)) :
    Prepared o fl w request p a c child ∧ Stays (immunePrefix :: birthTexts) p t := by
  rw [prepareChild] at h
  rcases Prog.exec_bind_eq_some.1 h with ⟨e, -, he⟩ | ⟨a', p1, h1, k1⟩
  · cases he
  rcases Prog.exec_bind_eq_some.1 k1 with ⟨e, -, he⟩ | ⟨childDepth, p2, h2, k2⟩
  · cases he
  rcases Prog.exec_bind_eq_some.1 k2 with ⟨e, -, he⟩ | ⟨_, p3, h3, k3⟩
  · cases he
  rcases Prog.exec_bind_eq_some.1 k3 with ⟨e, -, he⟩ | ⟨_, p4, h4, k4⟩
  · cases he
  rcases Prog.exec_bind_eq_some.1 k4 with ⟨e, -, he⟩ | ⟨schemas, p5, h5, k5⟩
  · cases he
  rcases Prog.exec_bind_eq_some.1 k5 with ⟨e, -, he⟩ | ⟨c', p6, h6, k6⟩
  · cases he
  rcases Prog.exec_bind_eq_some.1 k6 with ⟨e, -, he⟩ | ⟨child', p7, h7, k7⟩
  · cases he
  cases k7
  obtain ⟨rfl, hgates⟩ := verifySpawnCoAttestation_ok h1
  obtain ⟨hdepth, hover, hstays2⟩ := checkLineageDepth_ok h2
  obtain ⟨rfl, hquota⟩ := checkLifetimeQuota_ok h3
  obtain ⟨rfl, hlog⟩ := buildChild_ok h7
  have hstays4 : Stays (immunePrefix :: birthTexts) p3 p4 := stays_prepareChildDir _ _ _ h4
  have hstays5 : Stays (immunePrefix :: birthTexts) p4 p5 := stays_queryGradientSchemas _ _ _ h5
  have hstays6 : Stays (immunePrefix :: birthTexts) p5 t := stays_conceive _ _ _ h6
  obtain ⟨hid, htime, hd, hschemas, hquarantine⟩ := conceive_ok h6
  have hstays := IsTrans.trans (r := Stays (immunePrefix :: birthTexts)) _ _ _ hstays2
    (IsTrans.trans (r := Stays (immunePrefix :: birthTexts)) _ _ _ hstays4 hstays5)
  refine ⟨⟨hgates, hd.trans hdepth, fun hlt => hover (hd ▸ hlt), ?_, hid, htime, ?_, ?_, hlog⟩,
    IsTrans.trans (r := Stays _) _ _ _ hstays hstays6⟩
  · have hshuns : Shuns birthTexts p1.server p3.server :=
      hstays2.server.mono fun _ hw => List.mem_cons_of_mem _ hw
    have hbirths := hshuns.filter
    rw [← childrenSpawnedCount_births, births, hbirths] at hquota
    rwa [← childrenSpawnedCount_births]
  · rw [hquarantine, immuneSummary_isEmpty, Shuns.exists_iff hstays.server List.mem_cons_self]
  · rw [hschemas]
    exact queryGradientSchemas_ok h5

end

/-! ### What is recorded -/

/-- One birth more, with this anchor. -/
structure Born (anchorTs : Int64) (s s' : ServerState env) : Prop where
  spawned : childrenSpawnedCount s'.nodes = childrenSpawnedCount s.nodes + 1
  attested : attestedCount s'.nodes = attestedCount s.nodes + 1
  anchors : spawnAnchors s'.nodes = spawnAnchors s.nodes ++ [anchorTs]
  room : childrenSpawnedCount s'.nodes ≤ isizeMax

/-- The emission of a spore and the record of a birth. -/
theorem born_of_nodes {s s' : ServerState env} {n m : DagNode} {anchorTs : Int64}
    (hn : s'.nodes = s.nodes ++ [n, m]) (hspore : startsWith sporeEmissionPrefix n.nodeType)
    (hattested : startsWith genesisAttestedPrefix m.nodeType)
    (hanchor : anchorOf? m = some anchorTs)
    (hroom : childrenSpawnedCount s.nodes + 1 ≤ isizeMax) : Born anchorTs s s' := by
  have hn' : ¬ startsWith genesisAttestedPrefix n.nodeType := not_startsWith hspore (by decide)
  have hm' : ¬ startsWith sporeEmissionPrefix m.nodeType := not_startsWith hattested (by decide)
  have hspawned : childrenSpawnedCount s'.nodes = childrenSpawnedCount s.nodes + 1 := by
    simp [childrenSpawnedCount, hn, hspore, hm']
  refine ⟨hspawned, ?_, ?_, hspawned ▸ hroom⟩
  · simp [attestedCount, hn, hattested, hn']
  · simp [spawnAnchors, hn, hattested, hn', hanchor]

section

variable {o : Overrides} {fl : FloatDifference rt} {w : World rt} {request : Message}
  {childStateDir : String} {p p' : Parent env} {a : VerifiedSpawnAttestation} {c : SpawnCosign}

theorem anchorOf?_genesisAttested {n : DagNode} {g : GenesisAttested}
    (hn : n.content = encodeGenesisAttestedEvent g)
    (hmem : (encodeGenesisAttestedEvent g).length ≤ isizeMax)
    (hc : decodeSpawnCosign g.spawnCosignEnvelope = some c) :
    anchorOf? n = some c.anchorTimestampUnixNs := by
  rw [anchorOf?, hn, decode_genesisAttested hmem]
  show (decodeSpawnCosign g.spawnCosignEnvelope >>= _) = _
  rw [hc]
  rfl

theorem childrenSpawnedCount_le {nodes : List DagNode} :
    childrenSpawnedCount nodes ≤ nodes.length := List.countP_le_length

theorem recordBirth_cases {childDepth axisCount : UInt64} {r : Except SubstrateError Sprouted}
    (hc : decodeSpawnCosign a.envelopeBytes = some c)
    (h : (recordBirth request childStateDir a childDepth axisCount).exec p = some (r, p'))
    (hs : ¬ Collided p'.server) :
    (∃ s, r = .ok s ∧ s.childSubstrateId = a.mintedChildId ∧
      s.childGenerationDepth = childDepth) ∧
    Born c.anchorTimestampUnixNs p.server p'.server ∧ p'.disk = p.disk ∧
    p'.children = p.children := by
  rw [recordBirth, Prog.exec_get_bind] at h
  have hspore : startsWith sporeEmissionPrefix
      (sporeEmissionPrefix ++ hexPrefix a.mintedChildId.bytes 8) := startsWith_append
  have hattested : startsWith genesisAttestedPrefix (genesisAttestedNodeType a.mintedChildId) :=
    startsWith_append
  have hne1 := ne_empty_of_startsWith (q := mutationPrefix) hspore (by decide)
  have hne2 := ne_empty_of_startsWith (q := mutationPrefix) hattested (by decide)
  rcases Prog.exec_bind_eq_some.1 h with ⟨e, h1, -⟩ | ⟨sporeHash, t, h1, h2⟩
  · obtain ⟨s1, hi, rfl⟩ := Prog.exec_zoom_eq_some.1 h1
    obtain ⟨hr, -⟩ := (insertNode_tip hi hne1 (List.append_nil _).symm (by simp)).holds hs
    cases hr
  obtain ⟨s1, hi, rfl⟩ := Prog.exec_zoom_eq_some.1 h1
  have hbar := insertNode_tip hi hne1 (List.append_nil _).symm (by simp)
  rcases Prog.exec_bind_eq_some.1 h2 with ⟨e, h3, -⟩ | ⟨attestedHash, u, h3, h4⟩
  · obtain ⟨s2, he, rfl⟩ := Prog.exec_zoom_eq_some.1 h3
    obtain ⟨x, hx⟩ := (sure_emitSubstrateEvent hne2 _ _ _ he).holds hs
    cases hx
  obtain ⟨s2, he, rfl⟩ := Prog.exec_zoom_eq_some.1 h3
  cases h4
  have hs1 : ¬ Collided s1 := fun hcol => hs ((sure_emitSubstrateEvent hne2 _ _ _ he).stays hcol)
  obtain ⟨-, happ⟩ := hbar.holds hs1
  refine ⟨⟨_, rfl, rfl, rfl⟩, ?_, rfl, rfl⟩
  rcases (emitSubstrateEvent_cases he).2 with ⟨e, hx, -⟩ | ⟨m, -, hm, hmt, hmc, hmem⟩
  · cases hx
  have hfits := happ.fits
  obtain ⟨n, hnodes1, hnt⟩ : ∃ n, s1.nodes = p.server.nodes ++ [n] ∧
      startsWith sporeEmissionPrefix n.nodeType := ⟨_, happ.nodes, hspore⟩
  have hroom : childrenSpawnedCount p.server.nodes + 1 ≤ isizeMax := by
    have hle : childrenSpawnedCount p.server.nodes ≤ p.server.nodes.length :=
      childrenSpawnedCount_le
    rw [Fits, hnodes1, List.length_append, List.length_singleton] at hfits
    omega
  refine born_of_nodes (n := n) (m := m) ?_ hnt (hmt ▸ hattested)
    (anchorOf?_genesisAttested hmc hmem hc) hroom
  show s2.nodes = _
  rw [hm]
  show s1.nodes ++ [m] = _
  rw [hnodes1, List.append_assoc]
  rfl

theorem saveChild_cases {child : Ledger env.blake3} {r : Except SubstrateError PUnit}
    (h : (saveChild w childStateDir child).exec p = some (r, p')) :
    (∃ e, r = .error e ∧ p' = p) ∨
    (r = .ok ⟨⟩ ∧ p' = { p with children := p.children ++ [(childStateDir, child)] }) := by
  rw [saveChild] at h
  split at h
  · cases h
    exact .inr ⟨rfl, rfl⟩
  · cases h
    exact .inl ⟨_, rfl, rfl⟩

/-- What a request that is answered well has come to. -/
theorem handleSproutChild_ok {s : Sprouted}
    (h : (handleSproutChild o fl w request).exec p = some (.ok s, p')) :
    ∃ a c d child childStateDir, Prepared o fl w request p a d child ∧
      Passed o p.server request a c ∧ p'.children = p.children ++ [(childStateDir, child)] ∧
      s.childSubstrateId = a.mintedChildId ∧ s.childGenerationDepth = d.generationDepth := by
  rw [handleSproutChild] at h
  split at h
  · cases h
  rename_i childStateDir _
  rcases Prog.exec_bind_eq_some.1 h with ⟨e, -, he⟩ | ⟨⟨a, d, child⟩, t, h1, h2⟩
  · cases he
  obtain ⟨hprep, hstays⟩ := prepareChild_ok h1
  obtain ⟨c, hpassed⟩ := spawnGates_ok hprep.gates
  rcases Prog.exec_bind_eq_some.1 h2 with ⟨e, -, he⟩ | ⟨_, u, h3, h4⟩
  · cases he
  rcases saveChild_cases h3 with ⟨_, he, -⟩ | ⟨-, rfl⟩
  · cases he
  rw [recordBirth, Prog.exec_get_bind] at h4
  rcases Prog.exec_bind_eq_some.1 h4 with ⟨e, -, he⟩ | ⟨_, v, h5, h6⟩
  · cases he
  rcases Prog.exec_bind_eq_some.1 h6 with ⟨e, -, he⟩ | ⟨_, x, h7, h8⟩
  · cases he
  obtain ⟨_, -, rfl⟩ := Prog.exec_zoom_eq_some.1 h5
  obtain ⟨_, -, rfl⟩ := Prog.exec_zoom_eq_some.1 h7
  cases h8
  refine ⟨a, c, d, child, childStateDir, hprep, hpassed, ?_, rfl, rfl⟩
  show t.children ++ _ = _
  rw [hstays.children]

theorem sproutChild_ok {s : Sprouted}
    (h : (sproutChild o fl w request).exec p = some (.ok s, p')) :
    ∃ t, (handleSproutChild o fl w request).exec p = some (.ok s, t) := by
  rw [sproutChild] at h
  rcases Prog.exec_bind_eq_some.1 h with ⟨e, -, he⟩ | ⟨s', t, h1, h2⟩
  · cases he
  rcases Prog.exec_bind_eq_some.1 h2 with ⟨e, -, he⟩ | ⟨_, u, -, h3⟩
  · cases he
  · cases h3
    exact ⟨t, h1⟩

/-- What a request that is served does. -/
structure Serves (o : Overrides) (fl : FloatDifference rt) (w : World rt) (request : Message)
    (p p' : Parent env) (a : VerifiedSpawnAttestation) (c : SpawnCosign) (d : Conception rt)
    (child : Ledger env.blake3) : Prop where
  prepared : Prepared o fl w request p a d child
  passed : Passed o p.server request a c
  saved : ∃ childStateDir, p'.children = p.children ++ [(childStateDir, child)]
  born : Born c.anchorTimestampUnixNs p.server p'.server

theorem Born.of_shuns {s t u : ServerState env} {anchorTs : Int64} (h : Shuns birthTexts s t)
    (hb : Born anchorTs t u) : Born anchorTs s u := by
  have hbirths : births t.nodes = births s.nodes := h.filter
  have hspawned : childrenSpawnedCount t.nodes = childrenSpawnedCount s.nodes := by
    rw [← childrenSpawnedCount_births, hbirths, childrenSpawnedCount_births]
  have hattested : attestedCount t.nodes = attestedCount s.nodes := by
    rw [← attestedCount_births, hbirths, attestedCount_births]
  have hanchors : spawnAnchors t.nodes = spawnAnchors s.nodes := by
    rw [← spawnAnchors_births, hbirths, spawnAnchors_births]
  exact ⟨hspawned ▸ hb.spawned, hattested ▸ hb.attested, hanchors ▸ hb.anchors, hb.room⟩

theorem handleSproutChild_cases {r : Except SubstrateError Sprouted}
    (h : (handleSproutChild o fl w request).exec p = some (r, p')) (hs : ¬ Collided p'.server) :
    (∃ e, r = .error e ∧ Rests p p') ∨
    ∃ a c d child s, r = .ok s ∧ Serves o fl w request p p' a c d child ∧
      s.childSubstrateId = a.mintedChildId ∧ s.childGenerationDepth = d.generationDepth ∧
      p'.disk = p.disk := by
  rw [handleSproutChild] at h
  split at h
  · cases h
    exact .inl ⟨_, rfl, Std.Refl.refl (r := Rests) p⟩
  rename_i childStateDir _
  rcases Prog.exec_bind_eq_some.1 h with ⟨e, h1, rfl⟩ | ⟨⟨a, d, child⟩, t, h1, h2⟩
  · exact .inl ⟨e, rfl, rests_prepareChild _ _ _ h1⟩
  have hrests := rests_prepareChild _ _ _ h1
  obtain ⟨hprep, hstays⟩ := prepareChild_ok h1
  rcases Prog.exec_bind_eq_some.1 h2 with ⟨e, h3, rfl⟩ | ⟨_, u, h3, h4⟩
  · rcases saveChild_cases h3 with ⟨_, -, rfl⟩ | ⟨he, -⟩
    · exact .inl ⟨e, rfl, hrests⟩
    · cases he
  rcases saveChild_cases h3 with ⟨_, he, -⟩ | ⟨-, rfl⟩
  · cases he
  obtain ⟨c, hpassed⟩ := spawnGates_ok hprep.gates
  obtain ⟨⟨s, rfl, hid, hdepth⟩, hborn, hdisk, hchildren⟩ := recordBirth_cases hpassed.decoded h4 hs
  refine .inr ⟨a, c, d, child, s, rfl, ⟨hprep, hpassed, ⟨childStateDir, ?_⟩, ?_⟩, hid, hdepth, ?_⟩
  · rw [hchildren, hstays.children]
  · exact .of_shuns (hstays.server.mono fun _ hw => List.mem_cons_of_mem _ hw) hborn
  · rw [hdisk, hstays.disk]

/-- The arm saves what the handler has recorded, if it can. -/
theorem sproutChild_cases {r : Except SubstrateError Sprouted}
    (h : (sproutChild o fl w request).exec p = some (r, p')) (hs : ¬ Collided p'.server) :
    (∃ e, r = .error e ∧ Rests p p') ∨
    ∃ a c d child, Serves o fl w request p p' a c d child ∧
      ((∃ s, r = .ok s ∧ s.childSubstrateId = a.mintedChildId ∧
          s.childGenerationDepth = d.generationDepth ∧ p'.disk = p'.server.ledger) ∨
        ((∃ e, r = .error e) ∧ p'.disk = p.disk)) := by
  rw [sproutChild] at h
  rcases Prog.exec_bind_eq_some.1 h with ⟨e, h1, rfl⟩ | ⟨s, t, h1, h2⟩
  · rcases handleSproutChild_cases h1 hs with ⟨_, -, hrests⟩ | ⟨_, _, _, _, _, he, -⟩
    · exact .inl ⟨e, rfl, hrests⟩
    · cases he
  have hsave : t.server = p'.server ∧ t.children = p'.children ∧
      ((r = .ok s ∧ p'.disk = p'.server.ledger) ∨ ((∃ e, r = .error e) ∧ p'.disk = t.disk)) := by
    rw [saveDagState] at h2
    split at h2
    · cases h2
      exact ⟨rfl, rfl, .inl ⟨rfl, rfl⟩⟩
    · cases h2
      exact ⟨rfl, rfl, .inr ⟨⟨_, rfl⟩, rfl⟩⟩
  obtain ⟨hserver, hchildren, hsave⟩ := hsave
  rcases handleSproutChild_cases h1 (hserver ▸ hs) with ⟨_, he, -⟩ |
    ⟨a, c, d, child, s', he, hserves, hid, hdepth, hdisk⟩
  · cases he
  · cases he
    refine .inr ⟨a, c, d, child, ⟨hserves.prepared, hserves.passed, hchildren ▸ hserves.saved,
      hserver ▸ hserves.born⟩, ?_⟩
    rcases hsave with ⟨rfl, hsaved⟩ | ⟨he, hsaved⟩
    · exact .inl ⟨s, rfl, hid, hdepth, hsaved⟩
    · exact .inr ⟨he, hsaved.trans hdisk⟩

end

end Myco.Reproduction
