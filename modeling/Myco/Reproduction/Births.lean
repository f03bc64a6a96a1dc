import Myco.Reproduction.Discipline
import Myco.Tropism.Run

/-!
# Runs of a parent

A parent is asked for children, saves its log and starts again from it, and does other things in
between that record no birth (`Turns`). The discipline holds throughout (`disciplined`), and a child
boots as its parent intends (`child_boots`). The ids of the children are another matter: they are
made of fields of the envelope that no gate compares with what came before (`reissued_iff`).
-/

namespace Myco.Reproduction

open Myco.Lib Myco.Canonical Myco.Schema Myco.Substrate Myco.Federation Myco.Consensus
  Myco.Prune Myco.Tropism

variable {env : Env} {rt : Runtime} {o : Overrides} {fl : FloatDifference rt}

/-! ### Turns -/

inductive Turn (rt : Runtime) where
  | sprout (w : World rt) (request : Message) (answer : Except SubstrateError Sprouted)
  /-- whatever else the substrate does: no other code writes the records of births -/
  | elsewhere
  | save
  | restart (files : BootFiles)

inductive Turns (o : Overrides) (fl : FloatDifference rt) : Parent env → Turn rt → Parent env → Prop
  | sprout {p p' : Parent env} {w : World rt} {request : Message}
      {r : Except SubstrateError Sprouted} :
      (sproutChild o fl w request).exec p = some (r, p') → Turns o fl p (.sprout w request r) p'
  | elsewhere {p : Parent env} {s : ServerState env} :
      Shuns birthTexts p.server s → Turns o fl p .elsewhere { p with server := s }
  | save {p : Parent env} : Turns o fl p .save { p with disk := p.server.ledger }
  | restart {p : Parent env} {files : BootFiles} :
      Turns o fl p (.restart files) { p with server := bootState files p.disk }

/-- The request of a turn that is served, with the answer. -/
def Turn.served? : Turn rt → Option (Message × Sprouted)
  | .sprout _ request (.ok s) => some (request, s)
  | _ => none

/-- The anchors of the children, in the order in which they were asked for. -/
def anchors (es : List (Turn rt)) : List Int64 :=
  es.filterMap fun e => e.served?.bind fun q =>
    (envelope? q.1).map SpawnCosign.anchorTimestampUnixNs

def mintedIds (es : List (Turn rt)) : List Hash32 :=
  es.filterMap fun e => e.served?.map fun q => q.2.childSubstrateId

/-- What the ids of the children are made of. -/
def mintedFrom (es : List (Turn rt)) : List (Hash32 × Hash32 × Int64) :=
  es.filterMap fun e => e.served?.bind fun q => (envelope? q.1).map fun c =>
    (c.parentSubstrateId, c.sporeSchemaHash, c.childGenesisTimestampUnixNs)

/-! ### The discipline -/

/-- The records of births in a log, after births with these anchors. -/
structure Disciplined (o : Overrides) (done : List Int64) (nodes : List DagNode) : Prop where
  quota : childrenSpawnedCount nodes ≤ (effectiveLifetimeQuota o).toNat
  attested : attestedCount nodes = childrenSpawnedCount nodes
  covered : ∀ t ∈ done, ∃ b ∈ spawnAnchors nodes, t ≤ b

section

variable {done : List Int64} {p p' : Parent env}

theorem Disciplined.of_births {ns ms : List DagNode} (h : Disciplined o done ns)
    (hb : births ms = births ns) : Disciplined o done ms := by
  have hspawned : childrenSpawnedCount ms = childrenSpawnedCount ns := by
    rw [← childrenSpawnedCount_births, hb, childrenSpawnedCount_births]
  have hattested : attestedCount ms = attestedCount ns := by
    rw [← attestedCount_births, hb, attestedCount_births]
  have hanchors : spawnAnchors ms = spawnAnchors ns := by
    rw [← spawnAnchors_births, hb, spawnAnchors_births]
  exact ⟨hspawned ▸ h.quota, by rw [hattested, hspawned, h.attested], hanchors ▸ h.covered⟩

theorem le_of_saturatingAdd {n : Nat} {q : UInt64} (hn : n + 1 ≤ isizeMax)
    (h : saturatingAdd (UInt64.ofNat n) 1 ≤ q) : n + 1 ≤ q.toNat := by
  have hmax : isizeMax < 2 ^ 64 - 1 := by decide
  have hone : (1 : UInt64).toNat = 1 := rfl
  have h' := UInt64.le_iff_toNat_le.1 h
  rw [saturatingAdd_toNat, UInt64.toNat_ofNat', Nat.mod_eq_of_lt (by omega), hone] at h'
  omega

theorem Born.disciplined {s s' : ServerState env} {anchorTs : Int64} (hb : Born anchorTs s s')
    (hq : saturatingAdd (UInt64.ofNat (childrenSpawnedCount s.nodes)) 1 ≤ effectiveLifetimeQuota o)
    (h : Disciplined o done s.nodes) : Disciplined o (done ++ [anchorTs]) s'.nodes := by
  refine ⟨?_, ?_, fun t ht => ?_⟩
  · have hroom := hb.room
    rw [hb.spawned] at hroom ⊢
    exact le_of_saturatingAdd hroom hq
  · rw [hb.attested, hb.spawned, h.attested]
  · rw [hb.anchors]
    rcases List.mem_append.1 ht with ht | ht
    · obtain ⟨b, hmem, hle⟩ := h.covered t ht
      exact ⟨b, List.mem_append_left _ hmem, hle⟩
    · cases List.mem_singleton.1 ht
      exact ⟨anchorTs, List.mem_append_right _ (List.mem_singleton_self _), Int64.le_refl _⟩

theorem Disciplined.mono {done' : List Int64} {nodes : List DagNode} (h : Disciplined o done nodes)
    (hd : ∀ t ∈ done', t ∈ done) : Disciplined o done' nodes :=
  ⟨h.quota, h.attested, fun t ht => h.covered t (hd t ht)⟩

/-- So are the logs of a parent. -/
structure Kept (o : Overrides) (done : List Int64) (p : Parent env) : Prop where
  live : Disciplined o done p.server.nodes
  saved : Disciplined o done p.disk.nodes

theorem anchors_singleton {e : Turn rt} : anchors [e] = (e.served?.bind fun q =>
    (envelope? q.1).map SpawnCosign.anchorTimestampUnixNs).toList := by
  rw [anchors, List.filterMap_cons, List.filterMap_nil]
  cases e.served?.bind fun q => (envelope? q.1).map SpawnCosign.anchorTimestampUnixNs <;> rfl

/-- One turn keeps the discipline, and its anchor is later than those before. -/
theorem Turns.kept {e : Turn rt} (h : Turns o fl p e p') (hs : ¬ Collided p'.server)
    (hk : Kept o done p) : Kept o (done ++ anchors [e]) p' ∧
      ∀ t ∈ done, ∀ u ∈ anchors [e], LaterBy (effectiveRateMinIntervalNs o) t u := by
  have hidle : ∀ {q : Parent env}, anchors [e] = [] → Kept o done q →
      Kept o (done ++ anchors [e]) q ∧
        ∀ t ∈ done, ∀ u ∈ anchors [e], LaterBy (effectiveRateMinIntervalNs o) t u := by
    intro q hnil hq
    rw [hnil, List.append_nil]
    exact ⟨hq, fun _ _ _ hu => absurd hu List.not_mem_nil⟩
  cases h with
  | @sprout _ w request r he =>
    rcases sproutChild_cases he hs with ⟨err, rfl, hrests⟩ | ⟨a, c, d, child, hserves, hr⟩
    · have hlive := hk.live.of_births hrests.server.filter
      refine hidle rfl ⟨hlive, ?_⟩
      rcases hrests.disk with hd | hd
      · exact hd ▸ hk.saved
      · exact hlive.of_births hd
    · have hborn := hserves.born.disciplined hserves.prepared.quota hk.live
      rcases hr with ⟨s, rfl, -, -, hdisk⟩ | ⟨⟨err, rfl⟩, hdisk⟩
      · have hone : anchors [Turn.sprout w request (.ok s)] = [c.anchorTimestampUnixNs] := by
          rw [anchors_singleton]
          show ((envelope? request).map _).toList = _
          rw [hserves.passed.envelope]
          rfl
        rw [hone]
        refine ⟨⟨hborn, ?_⟩, fun t ht u hu => ?_⟩
        · rw [hdisk]
          exact hborn
        · cases List.mem_singleton.1 hu
          obtain ⟨b, hb, hle⟩ := hk.live.covered t ht
          obtain ⟨hlt, hdiff⟩ := hserves.passed.later b hb
          have hle' := Int64.le_iff_toInt_le.1 hle
          exact ⟨Int64.lt_of_le_of_lt hle hlt, by omega⟩
      · refine hidle rfl ⟨hborn.mono fun _ => List.mem_append_left _, ?_⟩
        rw [hdisk]
        exact hk.saved
  | elsewhere h => exact hidle rfl ⟨hk.live.of_births h.filter, hk.saved⟩
  | save => exact hidle rfl ⟨hk.live, hk.live⟩
  | restart => exact hidle rfl ⟨hk.saved, hk.saved⟩

end

/-! ### A parent -/

section

def hunger : AxisSchemaInfo wholeNumbers :=
  ⟨"hunger", "appetite", (5 : Int), (1 : Int), (3 : Int), (0 : Int), false, "decay"⟩

/-- Nothing is in the way, and the worker has one axis. -/
def openWorld : World wholeNumbers where
  dagCbExists := false
  manifestCbExists := false
  createDirAll := .ok ()
  pythonClient := some (.ok [hunger])
  saveChild := .ok ()
  saveParent := .ok ()

def sporeSchema : Bytes := cbEncode (requiredSporeFields.map fun field => (field, .uint 0))

def spawnEnvelope (anchorTs : Int64) : SpawnCosign :=
  ⟨.replicate 1, foldHash sporeSchema, 7, anchorTs, .replicate 0, true⟩

def sproutRequest (childStateDir : String) (anchorTs : Int64) : Message :=
  ⟨"sprout_child", 1, OrdMap.ofList utf8 [("child_state_dir", .string childStateDir),
    ("spawn_cosign_envelope", .bytes (buildSpawnCosignCanonicalBytes (spawnEnvelope anchorTs))),
    ("spore_schema_canonical_bytes", .bytes sporeSchema)]⟩

def parentLedger (generationDepth : UInt64) : Ledger (keyedEnv []).blake3 :=
  Ledger.new.push ⟨[], genesisEventNodeType (.replicate 1), 0,
    encodeGenesisEvent (.replicate 1) 0 generationDepth⟩

/-- A parent that has only just started from a log with a genesis of this depth. -/
def newParent (generationDepth : UInt64) : Parent (keyedEnv []) :=
  ⟨bootState noFiles (parentLedger generationDepth), parentLedger generationDepth, []⟩

theorem births_parentLedger {generationDepth : UInt64} :
    births (parentLedger generationDepth).nodes = [] := by
  refine List.filter_eq_nil_iff.2 fun n hn => ?_
  have hcall : n ∈ [Insertion.node foldHash _] := (parentLedger generationDepth).mem_calls hn
  cases List.mem_singleton.1 hcall
  rw [decide_eq_true_eq]
  exact not_births (p := genesisPrefix) startsWith_append

theorem births_newParent {generationDepth : UInt64} :
    births (newParent generationDepth).server.nodes = [] ∧
    births (newParent generationDepth).disk.nodes = [] :=
  ⟨births_parentLedger, births_parentLedger⟩

def apartCalls (s : ServerState (keyedEnv [])) : Bool :=
  let calls := s.ledger.calls.map (Insertion.node foldHash)
  decide (∀ m ∈ calls, ∀ n ∈ calls,
    merkleHash foldHash m.parentHashes m.content = merkleHash foldHash n.parentHashes n.content →
    m.parentHashes = n.parentHashes ∧ m.content = n.content)

theorem not_collided_of_apartCalls {s : ServerState (keyedEnv [])} (h : apartCalls s = true) :
    ¬ Collided s := by
  rw [apartCalls] at h
  have hsound := of_decide_eq_true h
  exact fun hc => hc hsound

/-- The request is served, and nothing collides. -/
def servedBy (childStateDir : String) (anchorTs : Int64) (p : Parent (keyedEnv [])) :
    Option (Sprouted × Parent (keyedEnv [])) :=
  match (sproutChild .production wholeDifference openWorld
      (sproutRequest childStateDir anchorTs)).exec p with
  | some (.ok s, p') => if apartCalls p'.server then some (s, p') else none
  | _ => none

theorem servedBy_eq_some {childStateDir : String} {anchorTs : Int64} {p p' : Parent (keyedEnv [])}
    {s : Sprouted} (h : servedBy childStateDir anchorTs p = some (s, p')) :
    (sproutChild .production wholeDifference openWorld
      (sproutRequest childStateDir anchorTs)).exec p = some (.ok s, p') ∧
    ¬ Collided p'.server := by
  rw [servedBy] at h
  split at h
  · rename_i he
    split at h
    · rename_i hapart
      cases h
      exact ⟨he, not_collided_of_apartCalls hapart⟩
    · cases h
  · cases h

/-- A parent as deep as a number of 64 bits can say. -/
def deepest : Parent (keyedEnv []) := newParent (UInt64.ofNat (2 ^ 64 - 1))

theorem depth_deepest : deepest.server.generationDepth.toNat = 2 ^ 64 - 1 := by decide +kernel

theorem served_deepest : ∃ s p',
    (sproutChild .production wholeDifference openWorld (sproutRequest "child" 0)).exec deepest =
      some (.ok s, p') ∧ ¬ Collided p'.server := by
  have hrun : (servedBy "child" 0 deepest).isSome = true := by decide +kernel
  obtain ⟨⟨s, p'⟩, h⟩ := Option.isSome_iff_exists.1 hrun
  exact ⟨s, p', servedBy_eq_some h⟩

/-- The turn of a request with this anchor that is served. -/
def sprouted (childStateDir : String) (anchorTs : Int64) (s : Sprouted) : Turn wholeNumbers :=
  .sprout openWorld (sproutRequest childStateDir anchorTs) (.ok s)

theorem sprouted_unique {p t u : Parent (keyedEnv [])} {childStateDir : String} {anchorTs : Int64}
    {s : Sprouted} (ht : Turns .production wholeDifference p (sprouted childStateDir anchorTs s) t)
    (hu : Turns .production wholeDifference p (sprouted childStateDir anchorTs s) u) : t = u := by
  cases ht with
  | sprout h =>
    cases hu with
    | sprout h' =>
      rw [h] at h'
      cases h'
      rfl

/-- The states of a run of two such turns. -/
theorem always_sprouted {C : Parent (keyedEnv []) → Prop} {p p' p'' : Parent (keyedEnv [])}
    {dir dir' : String} {t t' : Int64} {s s' : Sprouted}
    (h1 : Turns .production wholeDifference p (sprouted dir t s) p')
    (h2 : Turns .production wholeDifference p' (sprouted dir' t' s') p'') (hp' : C p')
    (hp'' : C p'') : Path.Always (Turns .production wholeDifference) (fun _ _ v => C v) p
      [sprouted dir t s, sprouted dir' t' s'] p'' := by
  intro ys e zs u v hxs hu hstep _
  cases ys with
  | nil =>
    cases hxs
    cases Path.nil_iff.1 hu
    exact sprouted_unique h1 hstep ▸ hp'
  | cons y ys =>
    obtain ⟨rfl, hxs⟩ := List.cons.inj hxs
    cases ys with
    | nil =>
      cases hxs
      cases sprouted_unique h1 (Path.singleton_iff.1 hu)
      exact sprouted_unique h2 hstep ▸ hp''
    | cons z ys => simp at hxs

theorem served_twice : ∃ s p' s' p'',
    Turns .production wholeDifference (newParent 0) (sprouted "child" 0 s) p' ∧
    Turns .production wholeDifference p'
      (sprouted "sibling" reproductionRateMinIntervalNs s') p'' ∧
    ¬ Collided p'.server ∧ ¬ Collided p''.server := by
  have hrun : ((servedBy "child" 0 (newParent 0)).any fun q =>
      (servedBy "sibling" reproductionRateMinIntervalNs q.2).isSome) = true := by decide +kernel
  obtain ⟨⟨s, p'⟩, h1, h2⟩ := (Option.any_eq_true _ _).1 hrun
  obtain ⟨⟨s', p''⟩, h2⟩ := Option.isSome_iff_exists.1 h2
  obtain ⟨he, hs⟩ := servedBy_eq_some h1
  obtain ⟨he', hs'⟩ := servedBy_eq_some h2
  exact ⟨s, p', s', p'', .sprout he, .sprout he', hs, hs'⟩

end

/-! ### What requests do -/

section

variable {p p' : Parent env} {es : List (Turn rt)}

/-- The child has the depth of its parent and one more, which may be too deep only if the envelope
says so. -/
def DepthAttested (o : Overrides) (s : ServerState env) (request : Message)
    (child : Ledger env.blake3) : Prop :=
  ∃ c d, envelope? request = some c ∧ fromDag child.dag = .ok d ∧
    d.generationDepth = saturatingAdd s.generationDepth 1 ∧
    (effectiveLineageDepthMax o < d.generationDepth → c.depthOverride = true)

/-- A request that fails has saved no child and left the records of births as they were, unless it
has saved the child. -/
structure Answered (o : Overrides) (request : Message) (r : Except SubstrateError Sprouted)
    (p p' : Parent env) : Prop where
  depth : ∀ childStateDir child, p'.children = p.children ++ [(childStateDir, child)] →
    DepthAttested o p.server request child
  served : ∀ s, r = .ok s → ∃ childStateDir child,
    p'.children = p.children ++ [(childStateDir, child)]
  refused : ∀ e, r = .error e →
    (∃ childStateDir child, p'.children = p.children ++ [(childStateDir, child)]) ∨
    (p'.children = p.children ∧
      childrenSpawnedCount p'.server.nodes = childrenSpawnedCount p.server.nodes ∧
      lastSpawnTs p'.server.nodes = lastSpawnTs p.server.nodes)

theorem Serves.depthAttested {w : World rt} {request : Message} {a : VerifiedSpawnAttestation}
    {c : SpawnCosign} {d : Conception rt} {child : Ledger env.blake3}
    (h : Serves o fl w request p p' a c d child) : DepthAttested o p.server request child :=
  ⟨c, bornAs d, h.passed.envelope, fromDag_child h.prepared.log, h.prepared.depth,
    fun hlt => h.passed.depthOverride ▸ h.prepared.overridden hlt⟩

theorem answered {w : World rt} {request : Message} {r : Except SubstrateError Sprouted}
    (he : (sproutChild o fl w request).exec p = some (r, p')) (hs : ¬ Collided p'.server) :
    Answered o request r p p' := by
  rcases sproutChild_cases he hs with ⟨err, rfl, hrests⟩ | ⟨a, c, d, child, hserves, -⟩
  · have hbirths : births p'.server.nodes = births p.server.nodes := hrests.server.filter
    refine ⟨fun _ _ hc => ?_, fun _ hr => ?_, fun _ _ => .inr ⟨hrests.children, ?_, ?_⟩⟩
    · rw [hrests.children] at hc
      simp at hc
    · cases hr
    · rw [← childrenSpawnedCount_births, hbirths, childrenSpawnedCount_births]
    · rw [lastSpawnTs, ← spawnAnchors_births, hbirths, spawnAnchors_births, lastSpawnTs]
  · obtain ⟨childStateDir, hsaved⟩ := hserves.saved
    refine ⟨fun _ _ hc => ?_, fun _ _ => ⟨_, _, hsaved⟩, fun _ _ => .inl ⟨_, _, hsaved⟩⟩
    rw [hsaved] at hc
    cases List.append_cancel_left hc
    exact hserves.depthAttested

/-! ### The discipline over a run -/

theorem anchors_append {es' : List (Turn rt)} : anchors (es ++ es') = anchors es ++ anchors es' :=
  List.filterMap_append

theorem kept_run (hrun : Path (Turns o fl) p es p') (hk : Kept o [] p)
    (hs : Path.Always (Turns o fl) (fun _ _ v => ¬ Collided v.server) p es p') :
    Kept o (anchors es) p' ∧ (anchors es).Pairwise (LaterBy (effectiveRateMinIntervalNs o)) := by
  induction es using List.reverseRecOn generalizing p' with
  | nil => exact Path.nil_iff.1 hrun ▸ ⟨hk, .nil⟩
  | append_singleton es e ih =>
    obtain ⟨u, hu, he⟩ := Path.append_iff.1 hrun
    have hstep := Path.singleton_iff.1 he
    obtain ⟨hku, hpair⟩ := ih hu fun ys x zs v w hxs hv hx hw =>
      hs ys x (zs ++ [e]) v w (by rw [hxs, List.append_assoc]; rfl) hv hx (hw.append he)
    obtain ⟨hk', hlater⟩ := hstep.kept (hs es e [] u p' rfl hu hstep .nil) hku
    have hone : (anchors [e]).Pairwise (LaterBy (effectiveRateMinIntervalNs o)) := by
      rw [anchors_singleton]
      cases e.served?.bind fun q => (envelope? q.1).map SpawnCosign.anchorTimestampUnixNs with
      | none => exact .nil
      | some t => exact List.pairwise_singleton _ _
    rw [anchors_append]
    exact ⟨hk', List.pairwise_append.2 ⟨hpair, hone, hlater⟩⟩

theorem disciplined_of_births_nil {nodes : List DagNode} (h : births nodes = []) :
    Disciplined o [] nodes := by
  have hspawned : childrenSpawnedCount nodes = 0 := by
    rw [← childrenSpawnedCount_births, h]
    rfl
  have hattested : attestedCount nodes = 0 := by
    rw [← attestedCount_births, h]
    rfl
  refine ⟨?_, by rw [hattested, hspawned], fun _ h => absurd h List.not_mem_nil⟩
  rw [hspawned]
  exact Nat.zero_le _

/-- The discipline of a parent that has had no children when the run begins. -/
theorem reproduction_disciplined (hlive : births p.server.nodes = [])
    (hsaved : births p.disk.nodes = []) (hrun : Path (Turns o fl) p es p')
    (hs : Path.Always (Turns o fl) (fun _ _ v => ¬ Collided v.server) p es p') :
    childrenSpawnedCount p'.server.nodes ≤ (effectiveLifetimeQuota o).toNat ∧
    attestedCount p'.server.nodes = childrenSpawnedCount p'.server.nodes ∧
    (anchors es).Pairwise (LaterBy (effectiveRateMinIntervalNs o)) ∧
    Path.Always (Turns o fl) (fun u e v => ∀ w request r, e = .sprout w request r →
      Answered o request r u v) p es p' := by
  obtain ⟨hk, hpair⟩ := kept_run hrun
    ⟨disciplined_of_births_nil hlive, disciplined_of_births_nil hsaved⟩ hs
  refine ⟨hk.live.quota, hk.live.attested, hpair, ?_⟩
  intro ys e zs u v hxs hu hstep hv w request r he
  cases he
  have hcollided := hs ys _ zs u v hxs hu hstep hv
  cases hstep with
  | sprout he => exact answered he hcollided

theorem reproduction_disciplined_siblings : ∃ es p',
    Path (Turns .production wholeDifference) (newParent 0) es p' ∧
    childrenSpawnedCount p'.server.nodes ≤ reproductionLifetimeQuota.toNat ∧
    attestedCount p'.server.nodes = childrenSpawnedCount p'.server.nodes := by
  obtain ⟨s, p', s', p'', h1, h2, hs, hs'⟩ := served_twice
  have hrun : Path (Turns .production wholeDifference) (newParent 0)
      [sprouted "child" 0 s, sprouted "sibling" reproductionRateMinIntervalNs s'] p'' :=
    .cons h1 (.cons h2 .nil)
  obtain ⟨hquota, hattested, -⟩ := reproduction_disciplined births_newParent.1
    births_newParent.2 hrun (always_sprouted h1 h2 hs hs')
  exact ⟨_, p'', hrun, hquota, hattested⟩

/-- A parent as deep as can be has a child that is no deeper. -/
theorem depth_saturates : ∃ s p',
    Turns .production wholeDifference deepest (sprouted "child" 0 s) p' ∧
    ¬ Collided p'.server ∧ births deepest.disk.nodes = [] ∧
    ¬ ∀ childStateDir child, p'.children = deepest.children ++ [(childStateDir, child)] → ∃ d,
      fromDag child.dag = .ok d ∧
      d.generationDepth.toNat = deepest.server.generationDepth.toNat + 1 := by
  obtain ⟨s, p', he, hs⟩ := served_deepest
  refine ⟨s, p', .sprout he, hs, births_newParent.2, fun hall => ?_⟩
  obtain ⟨dir, child, hsaved⟩ := (answered he hs).served s rfl
  obtain ⟨c, d, -, hd, -, -⟩ := (answered he hs).depth dir child hsaved
  obtain ⟨d', hd', hplus⟩ := hall dir child hsaved
  have hlt := d'.generationDepth.toNat_lt
  have hparent := depth_deepest
  omega

/-! ### Ids -/

/-- The message that the id of a child is the hash of. -/
def mintedMessageOf (x : Hash32 × Hash32 × Int64) : Bytes := mintedMessage x.1 x.2.1 x.2.2

theorem mintedMessageOf_inj {x y : Hash32 × Hash32 × Int64}
    (h : mintedMessageOf x = mintedMessageOf y) : x = y := by
  obtain ⟨p, s, t⟩ := x
  obtain ⟨p', s', t'⟩ := y
  obtain ⟨h1, ht⟩ := List.append_inj' h (by simp [toLeBytes])
  obtain ⟨hp, hs⟩ := List.append_inj h1 (by rw [p.length_eq, p'.length_eq])
  have ht' : i64Be t = i64Be t' := List.reverse_injective ht
  have htime : t = t' := by rw [← i64OfBe_i64Be (i := t), ht', i64OfBe_i64Be]
  cases Hash32.ext hp
  cases Hash32.ext hs
  rw [htime]

theorem mintedIds_eq (hrun : Path (Turns o fl) p es p') :
    mintedIds es = (mintedFrom es).map fun x => env.blake3 (mintedMessageOf x) := by
  induction hrun with
  | nil => rfl
  | @cons u v w e es hstep _ ih =>
    have hone : e.served?.map (fun q => q.2.childSubstrateId) =
        (e.served?.bind fun q => (envelope? q.1).map fun c =>
          (c.parentSubstrateId, c.sporeSchemaHash, c.childGenesisTimestampUnixNs)).map
            fun x => env.blake3 (mintedMessageOf x) := by
      cases hstep with
      | @sprout _ w request r he =>
        cases r with
        | error _ => rfl
        | ok s =>
          obtain ⟨t, ht⟩ := sproutChild_ok he
          obtain ⟨a, c, d, child, dir, hprep, hpassed, -, hid, -⟩ := handleSproutChild_ok ht
          show some s.childSubstrateId = ((envelope? request).map _).map _
          rw [hpassed.envelope, hid, hpassed.minted]
          rfl
      | elsewhere _ => rfl
      | save => rfl
      | restart => rfl
    rw [mintedIds, List.filterMap_cons, hone, mintedFrom, List.filterMap_cons]
    cases e.served?.bind fun q => (envelope? q.1).map fun c =>
        (c.parentSubstrateId, c.sporeSchemaHash, c.childGenesisTimestampUnixNs) with
    | none => exact ih
    | some x => exact congrArg (env.blake3 (mintedMessageOf x) :: ·) ih

/-- An id is issued again just if an envelope names the same schema and the same time of birth. -/
theorem ids_distinct_iff (hrun : Path (Turns o fl) p es p')
    (hinj : ∀ x ∈ mintedFrom es, ∀ y ∈ mintedFrom es,
      env.blake3 (mintedMessageOf x) = env.blake3 (mintedMessageOf y) →
      mintedMessageOf x = mintedMessageOf y) :
    (mintedIds es).Nodup ↔ (mintedFrom es).Nodup := by
  rw [mintedIds_eq hrun]
  refine ⟨fun h => h.of_map _, fun h => ?_⟩
  exact List.Nodup.map_on (fun x hx y hy he => mintedMessageOf_inj (hinj x hx y hy he)) h

/-- What the children of two requests with these anchors are made of. -/
def siblings : List (Hash32 × Hash32 × Int64) :=
  [(.replicate 1, foldHash sporeSchema, 7), (.replicate 1, foldHash sporeSchema, 7)]

theorem siblings_mintedFrom {s s' : Sprouted} :
    mintedFrom [sprouted "child" 0 s, sprouted "sibling" reproductionRateMinIntervalNs s'] =
      siblings := by
  have h1 : envelope? (sproutRequest "child" 0) = some (spawnEnvelope 0) := by decide +kernel
  have h2 : envelope? (sproutRequest "sibling" reproductionRateMinIntervalNs) =
      some (spawnEnvelope reproductionRateMinIntervalNs) := by decide +kernel
  rw [mintedFrom, List.filterMap_cons, List.filterMap_cons, sprouted, sprouted]
  simp only [Turn.served?, Option.bind_some, h1, h2, Option.map_some, List.filterMap_nil]
  rfl

theorem siblings_inj : ∀ x ∈ siblings, ∀ y ∈ siblings,
    foldHash (mintedMessageOf x) = foldHash (mintedMessageOf y) →
    mintedMessageOf x = mintedMessageOf y := by
  intro x hx y hy _
  rcases List.mem_pair.1 hx with rfl | rfl <;> rcases List.mem_pair.1 hy with rfl | rfl <;> rfl

/-- Two requests for one schema and one time of birth, a day apart. -/
theorem id_reissued : ∃ es p', Path (Turns .production wholeDifference) (newParent 0) es p' ∧
    Path.Always (Turns .production wholeDifference) (fun _ _ v => ¬ Collided v.server)
      (newParent 0) es p' ∧
    (∀ x ∈ mintedFrom es, ∀ y ∈ mintedFrom es,
      foldHash (mintedMessageOf x) = foldHash (mintedMessageOf y) →
      mintedMessageOf x = mintedMessageOf y) ∧
    ¬ (mintedIds es).Nodup := by
  obtain ⟨s, p', s', p'', h1, h2, hs, hs'⟩ := served_twice
  have hrun : Path (Turns .production wholeDifference) (newParent 0)
      [sprouted "child" 0 s, sprouted "sibling" reproductionRateMinIntervalNs s'] p'' :=
    .cons h1 (.cons h2 .nil)
  refine ⟨_, p'', hrun, ?_, ?_, ?_⟩
  · exact always_sprouted h1 h2 hs hs'
  · rw [siblings_mintedFrom]
    exact siblings_inj
  · rw [mintedIds_eq hrun, siblings_mintedFrom]
    exact fun h => (List.nodup_cons.1 h).1 (List.mem_singleton_self _)

theorem ids_distinct_iff_siblings : ∃ es p',
    Path (Turns .production wholeDifference) (newParent 0) es p' ∧
    ((mintedIds es).Nodup ↔ (mintedFrom es).Nodup) := by
  obtain ⟨s, p', s', p'', h1, h2, -, -⟩ := served_twice
  refine ⟨_, p'', .cons h1 (.cons h2 .nil), ids_distinct_iff (.cons h1 (.cons h2 .nil)) ?_⟩
  rw [siblings_mintedFrom]
  exact siblings_inj

/-! ### The child -/

/-- The log that is saved for a child says of it what its parent and the envelope say, and holds
the axes of the worker. -/
theorem child_boots {w : World rt} {request : Message} {s : Sprouted}
    {schemas : List (AxisSchemaInfo rt)}
    (he : (handleSproutChild o fl w request).exec p = some (.ok s, p'))
    (hpython : w.pythonClient = some (.ok schemas)) (hworker : OfWorker schemas) :
    ∃ childStateDir child c, p'.children = p.children ++ [(childStateDir, child)] ∧
      envelope? request = some c ∧
      s.childSubstrateId = env.blake3 (mintedMessage (ownId p.server) c.sporeSchemaHash
        c.childGenesisTimestampUnixNs) ∧
      fromDag child.dag = .ok { DerivedState.empty with
        substrateId := some s.childSubstrateId
        genesisTimeUnixNs := some c.childGenesisTimestampUnixNs
        generationDepth := saturatingAdd p.server.generationDepth 1 } ∧
      (∀ files, isInBirthPeriodQuarantine (bootState files child : ServerState env) = true ↔
        ∃ n ∈ p.server.nodes, startsWith immunePrefix n.nodeType) ∧
      ∃ v, Hydrates child.nodes v ∧ v.candidateGradient = none ∧
        List.Forall₂ (Seeded fl) schemas v.gradient.view := by
  obtain ⟨a, c, d, child, childStateDir, hprep, hpassed, hsaved, hid, -⟩ := handleSproutChild_ok he
  have hschemas : d.schemas = schemas := by
    have := hprep.schemas.symm.trans hpython
    cases this
    rfl
  refine ⟨childStateDir, child, c, hsaved, hpassed.envelope, ?_, ?_, fun files => ?_, ?_⟩
  · rw [hid, hpassed.minted, hpassed.parent]
  · rw [fromDag_child hprep.log, bornAs, hprep.childId, hprep.genesisTime, hpassed.genesisTime,
      hprep.depth, hid]
  · rw [quarantine_child hprep.log]
    exact hprep.quarantine
  · obtain ⟨v, hv, hcandidate, hseeded⟩ := hydrates_child (hschemas ▸ hworker) hprep.log
    exact ⟨v, hv, hcandidate, hschemas ▸ hseeded⟩

theorem ofWorker_hunger : OfWorker [hunger] := by
  refine ⟨List.nodup_singleton _, fun i hi => ?_⟩
  cases List.mem_singleton.1 hi
  exact ⟨.appetite, .decay, rfl, rfl⟩

/-- The parent has seen no infection, so its child is not in quarantine. -/
theorem child_boots_hunger : ∃ childStateDir child c, ∃ p' : Parent (keyedEnv []),
    p'.children = (newParent 0).children ++ [(childStateDir, child)] ∧
    envelope? (sproutRequest "child" 0) = some c ∧
    (∀ files, isInBirthPeriodQuarantine (bootState files child : ServerState (keyedEnv [])) = true ↔
      ∃ n ∈ (newParent 0).server.nodes, startsWith immunePrefix n.nodeType) ∧
    ∃ v, Hydrates child.nodes v ∧ List.Forall₂ (Seeded wholeDifference) [hunger] v.gradient.view := by
  obtain ⟨s, p', _, _, h1, -⟩ := served_twice
  cases h1 with
  | sprout he =>
    obtain ⟨t, ht⟩ := sproutChild_ok he
    obtain ⟨dir, child, c, hsaved, henv, -, -, hq, v, hv, -, hseeded⟩ :=
      child_boots ht rfl ofWorker_hunger
    exact ⟨dir, child, c, t, hsaved, henv, hq, v, hv, hseeded⟩

/-- The child of a parent as deep as can be is not derived to be deeper. -/
theorem child_depth_saturates : ∃ s p',
    (handleSproutChild .production wholeDifference openWorld (sproutRequest "child" 0)).exec
      deepest = some (.ok s, p') ∧
    ¬ ∃ childStateDir child d, p'.children = deepest.children ++ [(childStateDir, child)] ∧
      fromDag child.dag = .ok d ∧
      d.generationDepth.toNat = deepest.server.generationDepth.toNat + 1 := by
  obtain ⟨s, p', he, -⟩ := served_deepest
  obtain ⟨t, ht⟩ := sproutChild_ok he
  refine ⟨s, t, ht, ?_⟩
  rintro ⟨dir, child, d, -, -, hplus⟩
  have hlt := d.generationDepth.toNat_lt
  have hparent := depth_deepest
  omega

end

end Myco.Reproduction
