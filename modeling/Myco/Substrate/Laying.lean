import Myco.Substrate.Integrity
import Myco.Substrate.Tips

/-!
# What is laid on the tip

`Lays P`: all that a program does to the log is to append nodes, each with the tip for its first
parent, and `P` of each at the cycle that the counter stands at; what the log determines stays as it
is, and the memoized cultivation state stays in step with the log. What most programs lay is `Now`: a
node of this cycle that reads back as it was written and that replaying passes over.

An `Act` is what a handler does at the least: it emits a record, inserts one on the tip, raises an
alarm, or writes what the log does not determine. A handler that is not modelled is a sequence of
acts.
-/

namespace Myco.Substrate

open Myco.Lib Myco.Canonical Myco.Schema Myco.Federation

variable {env : Env}

/-! ### Laying -/

/-- The first parent is the tip of the log, if it has one. -/
def Linked (log : List DagNode) (n : DagNode) : Prop := ∃ ps, n.parentHashes = tipOf log ++ ps

/-- The memoized state is what the log says. -/
def Cultivated (s : ServerState env) : Prop := s.cultivationState = currentCultivationState s

structure Lays (P : UInt64 → DagNode → Prop) (s s' : ServerState env) : Prop where
  log : Grows (fun log n => Linked log n ∧ P s.cycleCounter n) s.nodes s'.nodes
  live : s'.live = s.live
  collided : Collided s → Collided s'
  cultivated : Cultivated s → Cultivated s'

variable {P Q : UInt64 → DagNode → Prop}

theorem Lays.cycleCounter {s s' : ServerState env} (h : Lays P s s') :
    s'.cycleCounter = s.cycleCounter := congrArg Live.cycleCounter h.live

instance : IsPreorder (ServerState env) (Lays P) where
  refl _ := ⟨.refl, rfl, id, id⟩
  trans _ _ _ h h' := ⟨h.log.trans (h.cycleCounter ▸ h'.log), h'.live.trans h.live,
    fun hc => h'.collided (h.collided hc), fun hc => h'.cultivated (h.cultivated hc)⟩

theorem Lays.mono {s s' : ServerState env} (h : Lays P s s') (hPQ : ∀ c n, P c n → Q c n) :
    Lays Q s s' :=
  ⟨h.log.mono fun _ _ hn => ⟨hn.1, hPQ _ _ hn.2⟩, h.live, h.collided, h.cultivated⟩

/-- Neither the log nor what it determines has changed. -/
theorem Lays.of_ledger_eq {s s' : ServerState env} (hl : s'.ledger = s.ledger)
    (hlive : s'.live = s.live) (hv : s'.cultivationState = s.cultivationState) : Lays P s s' := by
  have hn : s'.nodes = s.nodes := congrArg Ledger.nodes hl
  refine ⟨hn ▸ .refl, hlive, fun hc => by rwa [Collided, hl], fun h => ?_⟩
  rw [Cultivated, hv, currentCultivationState, hn]
  exact h

theorem currentCultivationState_congr {s s' : ServerState env} (h : s'.nodes = s.nodes) :
    currentCultivationState s' = currentCultivationState s := by
  rw [currentCultivationState, currentCultivationState, h]

/-- A node of another family does not change the state. -/
theorem cultivationEvent_of_not_family {c : CultivationState} {n : DagNode}
    (h : isCultivationFamilyNodeType n.nodeType = false) : cultivationEvent c n = c := by
  simp only [isCultivationFamilyNodeType, Bool.or_eq_false_iff, decide_eq_false_iff_not] at h
  obtain ⟨⟨⟨h1, h2⟩, h3⟩, h4⟩ := h
  unfold cultivationEvent
  rw [if_neg h1, if_neg h2, if_neg h3, if_neg h4]
  split
  · rename_i hc
    exact hc.symm
  · rfl

theorem lays_modify {g : ServerState env → ServerState env} (hl : ∀ s, (g s).ledger = s.ledger)
    (hlive : ∀ s, (g s).live = s.live)
    (hv : ∀ s, (g s).cultivationState = s.cultivationState) :
    Within (Lays P) (modify g : Handler env PUnit) :=
  within_modify fun s => .of_ledger_eq (hl s) (hlive s) (hv s)

theorem lays_readClock : Within (Lays P) (readClock : Handler env Int64) :=
  within_bind within_get fun _ =>
    within_bind (lays_modify (fun _ => rfl) (fun _ => rfl) fun _ => rfl) fun _ => within_pure

/-- What inserting a node does not touch. -/
structure InsertKeeps (s s' : ServerState env) : Prop where
  live : s'.live = s.live
  cultivationState : s'.cultivationState = s.cultivationState
  collided : Collided s → Collided s'

theorem insertNode_keeps {what : String} {c : Insertion} {s s' : ServerState env}
    {r : Except SubstrateError NodeHash} (h : (insertNode what c).exec s = some (r, s')) :
    InsertKeeps s s' := by
  rw [exec_insertNode] at h
  split at h
  · cases h
    exact ⟨rfl, rfl, fun hc hs => hc hs.of_push⟩
  · cases h

/-- What one call of `insert_node` with the tip for the first parent does. -/
theorem lays_of_insertNode {what : String} {c : Insertion} {ps : List NodeHash}
    {s s' : ServerState env} {r : Except SubstrateError NodeHash}
    (h : (insertNode what c).exec s = some (r, s')) (hp : c.parentHashes = s.tipParents ++ ps)
    (hP : c.content.length ≤ isizeMax → P s.cycleCounter (c.node env.blake3))
    (hf : isCultivationFamilyNodeType c.nodeType = false) : Lays P s s' := by
  have hsame := insertNode_keeps h
  rcases insertNode_tip_cases h hp with ⟨e, -, hn⟩ | ⟨-, hn, hc⟩
  · refine ⟨hn ▸ .refl, hsame.live, hsame.collided, fun hv => ?_⟩
    rw [Cultivated, hsame.cultivationState, currentCultivationState_congr hn]
    exact hv
  · refine ⟨?_, hsame.live, hsame.collided, fun hv => ?_⟩
    · rw [hn]
      refine .snoc .refl ⟨⟨ps, ?_⟩, hP hc⟩
      rw [← tipParents_eq]
      exact hp
    · have hevent := cultivationEvent_of_not_family (c := currentCultivationState s)
        (n := c.node env.blake3) hf
      rw [Cultivated, hsame.cultivationState, currentCultivationState, hn, List.foldl_append, List.foldl_cons,
        List.foldl_nil]
      exact hv.trans hevent.symm

theorem lays_insertNode {what : String} {c : ServerState env → Insertion}
    (hp : ∀ s, ∃ ps, (c s).parentHashes = s.tipParents ++ ps)
    (hP : ∀ s, (c s).content.length ≤ isizeMax → P s.cycleCounter ((c s).node env.blake3))
    (hf : ∀ s, isCultivationFamilyNodeType (c s).nodeType = false) :
    Within (Lays P) (get >>= fun s => insertNode what (c s) : Handler env NodeHash) := by
  intro s r s' h
  rw [Prog.exec_get_bind] at h
  obtain ⟨ps, hps⟩ := hp s
  exact lays_of_insertNode h hps (hP s) (hf s)

/-- The same, with what comes after it. -/
theorem lays_insertNode_bind {α : Type} {what : String} {c : ServerState env → Insertion}
    {f : NodeHash → Handler env α} (hp : ∀ s, ∃ ps, (c s).parentHashes = s.tipParents ++ ps)
    (hP : ∀ s, (c s).content.length ≤ isizeMax → P s.cycleCounter ((c s).node env.blake3))
    (hf : ∀ s, isCultivationFamilyNodeType (c s).nodeType = false)
    (hnext : ∀ h, Within (Lays P) (f h)) :
    Within (Lays P) (get >>= fun s => insertNode what (c s) >>= f) := by
  have hassoc : (get >>= fun s => insertNode what (c s) >>= f) =
      (get >>= fun s => insertNode what (c s)) >>= f := (bind_assoc _ _ _).symm
  rw [hassoc]
  exact within_bind (lays_insertNode hp hP hf) hnext

/-- An event of any family: the memoized state is refreshed after it. -/
theorem lays_emitSubstrateEvent {nodeType : String} {content : Bytes}
    (hP : ∀ c (n : DagNode), n.nodeType = nodeType → n.content = content → n.createdAtCycle = c →
      content.length ≤ isizeMax → P c n) :
    Within (Lays P) (emitSubstrateEvent nodeType content : Handler env NodeHash) := by
  intro s r s' h
  rw [emitSubstrateEvent, Prog.exec_get_bind] at h
  have hparents : s.tipParents = s.tipParents ++ [] := (List.append_nil _).symm
  have hinsert : ∀ (q : Except SubstrateError NodeHash) (t : ServerState env),
      (insertNode "substrate event DAG insert" ⟨s.tipParents, nodeType, s.cycleCounter,
        content⟩).exec s = some (q, t) → InsertKeeps s t ∧
      Grows (fun log n => Linked log n ∧ P s.cycleCounter n) s.nodes t.nodes := by
    intro q t ht
    refine ⟨insertNode_keeps ht, ?_⟩
    rcases insertNode_tip_cases ht hparents with ⟨e, -, hn⟩ | ⟨-, hn, hc⟩
    · exact hn ▸ .refl
    · rw [hn]
      refine .snoc .refl ⟨⟨[], ?_⟩, hP _ _ rfl rfl rfl hc⟩
      rw [← tipParents_eq]
      exact hparents
  cases hfam : isCultivationFamilyNodeType nodeType with
  | false =>
    rcases Prog.exec_bind_eq_some.1 h with ⟨e, h1, -⟩ | ⟨hash, t, h1, h2⟩
    · exact lays_of_insertNode h1 hparents (hP _ _ rfl rfl rfl) hfam
    · cases h2
      have hsame : t.refreshCultivation nodeType = t := by simp [ServerState.refreshCultivation, hfam]
      show Lays P s (t.refreshCultivation nodeType)
      rw [hsame]
      exact lays_of_insertNode h1 hparents (hP _ _ rfl rfl rfl) hfam
  | true =>
    rcases Prog.exec_bind_eq_some.1 h with ⟨e, h1, -⟩ | ⟨hash, t, h1, h2⟩
    · -- a call that fails leaves the nodes and the memoized state
      obtain ⟨hk, hg⟩ := hinsert _ _ h1
      refine ⟨hg, hk.live, hk.collided, fun hv => ?_⟩
      rcases insertNode_tip_cases h1 hparents with ⟨e', -, hn⟩ | ⟨hr, -⟩
      · rw [Cultivated, hk.cultivationState, currentCultivationState_congr hn]
        exact hv
      · cases hr
    · cases h2
      obtain ⟨hk, hg⟩ := hinsert _ _ h1
      have hn : (t.refreshCultivation nodeType).nodes = t.nodes :=
        congrArg Ledger.nodes t.refreshCultivation_ledger
      show Lays P s (t.refreshCultivation nodeType)
      refine ⟨?_, t.refreshCultivation_live.trans hk.live, fun hc => ?_, fun _ => ?_⟩
      · rw [hn]
        exact hg
      · rw [Collided, t.refreshCultivation_ledger]
        exact hk.collided hc
      · have hcached : (t.refreshCultivation nodeType).cultivationState =
            currentCultivationState t := by simp [ServerState.refreshCultivation, hfam]
        rw [Cultivated, hcached]
        exact (currentCultivationState_congr hn).symm

/-! ### What replaying passes over -/

/-- Replaying the event succeeds, and leaves what it is compared with. -/
def Timeless (n : DagNode) : Prop :=
  ∀ dag d, ∃ d', applyEventWithDag dag n d = (.ok (), d') ∧ d'.live = d.live

/-- A record, or an entry of the chain of successors. -/
def SetAside (nodeType : String) : Prop :=
  (family nodeType = .pureRecord ∨ family nodeType = .successorChainUpdated) ∧
    ¬ startsWith rawMaterialPrefix nodeType

/-- Reads back as it was written, and replaying passes over it. -/
structure Ordinary (n : DagNode) : Prop where
  rendered : Rendered n
  timeless : Timeless n
  setAside : SetAside n.nodeType

/-- A node of this cycle. -/
def Now (c : UInt64) (n : DagNode) : Prop := n.createdAtCycle = c ∧ Ordinary n

/-- A node of this cycle or, as a cycle settles, of the next one. -/
def Soon (c : UInt64) (n : DagNode) : Prop :=
  (n.createdAtCycle = c ∨ n.createdAtCycle = c + 1) ∧ Ordinary n

theorem Now.soon {c : UInt64} {n : DagNode} (h : Now c n) : Soon c n := ⟨.inl h.1, h.2⟩

theorem timeless_of_pureRecord {n : DagNode} (h : family n.nodeType = .pureRecord) :
    Timeless n := by
  intro dag d
  exact ⟨d, apply_pureRecord h, rfl⟩

theorem rendered_of_encode {n : DagNode} {v : Value} (hwf : v.WF) (hc : n.content = contentOf v)
    (hmem : n.content.length ≤ isizeMax) : Rendered n := by
  intro _
  have henc : encode v = .ok n.content := hc ▸ encode_eq_contentOf
  exact ⟨v, decode_of_encode hwf henc hmem, henc⟩

/-- A record that is no material. -/
structure IsNote (nodeType : String) : Prop where
  pure : family nodeType = .pureRecord
  notRaw : ¬ startsWith rawMaterialPrefix nodeType

theorem isNote_of_startsWith {p nodeType : String} (h : startsWith p nodeType)
    (hp : ∀ q ∈ rawMaterialPrefix :: dispatchTexts, Apart p q) : IsNote nodeType := by
  simp only [List.forall_mem_cons (p := fun q => Apart p q)] at hp
  exact ⟨family_pureRecord h hp.2, not_startsWith h hp.1⟩

theorem ordinary_of_note {n : DagNode} (h : IsNote n.nodeType) (hr : Rendered n) : Ordinary n :=
  ⟨hr, timeless_of_pureRecord h.pure, .inl h.pure, h.notRaw⟩

theorem ordinary_of_encode {n : DagNode} {es : List (String × Value)} (hwf : ∀ e ∈ es, e.2.WF)
    (hf : IsNote n.nodeType) (hc : n.content = cbEncode es)
    (hmem : n.content.length ≤ isizeMax) : Ordinary n :=
  ordinary_of_note hf (rendered_of_encode (mapOf_wf hwf) hc hmem)

section

variable {nodeType detectorId detectorName evidence : String} {es : List (String × Value)}

theorem lays_event (hf : IsNote nodeType) (hwf : ∀ e ∈ es, e.2.WF) :
    Within (Lays Now) (emitSubstrateEvent nodeType (cbEncode es) : Handler env NodeHash) :=
  lays_emitSubstrateEvent fun _ _ ht hc ha hmem =>
    ⟨ha, ordinary_of_encode hwf (ht ▸ hf) hc (hc ▸ hmem)⟩

theorem isNote_immune : IsNote (immunePrefix ++ detectorId) :=
  isNote_of_startsWith startsWith_append (by decide)

theorem lays_emitFresh {t : Int64} {k : UInt64} :
    Within (Lays Now) (emitFresh detectorId detectorName evidence t k : Handler env NodeHash) := by
  have hwf : ∀ x : Option UInt64, ∀ e ∈ [("detector_id", .string detectorId),
      ("detector_name", .string detectorName), ("evidence", .string evidence),
      ("timestamp_unix_ns", .timestamp t)] ++ entryIf "suppressed_since_last_emission" .uint x,
      e.2.WF := by
    intro x e he
    rcases List.mem_append.1 he with he | he
    · simp only [List.mem_cons, List.not_mem_nil, or_false] at he
      rcases he with rfl | rfl | rfl | rfl <;> trivial
    · obtain ⟨a, -, rfl⟩ := mem_entryIf.1 he
      trivial
  refine lays_insertNode_bind (fun s => ⟨[], (List.append_nil _).symm⟩) (fun s hmem => ⟨rfl, ?_⟩)
    (fun s => ?_) fun _ => within_bind (lays_modify (fun _ => rfl) (fun _ => rfl) fun _ => rfl)
      fun _ => within_pure
  · exact ordinary_of_encode (hwf _) isNote_immune rfl hmem
  · simp only [isCultivationFamilyNodeType, Bool.or_eq_false_iff, decide_eq_false_iff_not]
    have happ : startsWith immunePrefix (immunePrefix ++ detectorId) := startsWith_append
    exact ⟨⟨⟨not_startsWith happ (by decide), not_startsWith happ (by decide)⟩,
      not_startsWith happ (by decide)⟩, not_startsWith happ (by decide)⟩

theorem lays_emitImmuneSporocarp : Within (Lays Now)
    (emitImmuneSporocarp detectorId detectorName evidence : Handler env NodeHash) := by
  refine within_bind lays_readClock fun _ => within_bind within_get fun s => ?_
  cases OrdMap.get detectorId s.immuneEmissionState with
  | none => exact lays_emitFresh
  | some prior =>
    dsimp only
    split
    · exact within_bind (lays_modify (fun _ => rfl) (fun _ => rfl) fun _ => rfl)
        fun _ => within_pure
    · exact lays_emitFresh

end

/-! ### The chain of successors -/

def encodeSuccessorChainUpdated (entry : SuccessorEntry) (chainPosition updatedAtCycle : UInt64) :
    Bytes :=
  cbEncode [("successor_pubkey", hashValue entry.pubkey),
    ("valid_from_unix_ns", .timestamp entry.validFromUnixNs),
    ("valid_until_unix_ns", entry.validUntilUnixNs.elim .null .timestamp),
    ("chain_position", .uint chainPosition), ("updated_at_cycle", .uint updatedAtCycle)]

theorem ordinary_successor {n : DagNode} {name : String} {entry : SuccessorEntry}
    {position cycle : UInt64} (ht : n.nodeType = successorChainUpdatedPrefix ++ name)
    (hc : n.content = encodeSuccessorChainUpdated entry position cycle)
    (hmem : n.content.length ≤ isizeMax) : Ordinary n := by
  have hstart : startsWith successorChainUpdatedPrefix n.nodeType := ht ▸ startsWith_append
  have hf : family n.nodeType = .successorChainUpdated := family_successorChainUpdated hstart
  have hwf : ∀ e ∈ [("successor_pubkey", hashValue entry.pubkey),
      ("valid_from_unix_ns", .timestamp entry.validFromUnixNs),
      ("valid_until_unix_ns", entry.validUntilUnixNs.elim .null .timestamp),
      ("chain_position", .uint position), ("updated_at_cycle", .uint cycle)], e.2.WF := by
    cases entry.validUntilUnixNs <;> simp [Value.WF, hashValue]
  refine ⟨rendered_of_encode (mapOf_wf hwf) hc hmem, fun dag d => ?_, .inr hf,
    not_startsWith hstart (by decide)⟩
  obtain ⟨e, he⟩ : ∃ e, readSuccessorChainUpdated n = .ok e := by
    rw [readSuccessorChainUpdated, decodeEventMap_cbEncode hc hmem hwf, ok_bind]
    simp [bytes32Field, timestampField, mapGetBytes, mapGet, get_mapOf, OrdMap.get_cons,
      Value.bytes?, canonicalField, Except.mapError, hashValue, entry.pubkey.length_eq]
  refine ⟨{ d with successorChain := d.successorChain ++ [e] }, ?_, rfl⟩
  rw [applyEventWithDag, hf]
  exact afterReading_eq_ok.2 ⟨e, he, rfl⟩

/-! ### Acts -/

/-- What a handler does at the least. -/
inductive Act : ServerState env → ServerState env → Prop
  | event {s s' : ServerState env} {nodeType : String} {es : List (String × Value)}
      {r : Except SubstrateError NodeHash} : IsNote nodeType → (∀ e ∈ es, e.2.WF) →
      (emitSubstrateEvent nodeType (cbEncode es)).exec s = some (r, s') → Act s s'
  /-- outside the cultivation family, whose events are emitted -/
  | insert {s s' : ServerState env} {what nodeType : String} {ps : List NodeHash}
      {es : List (String × Value)} {r : Except SubstrateError NodeHash} : IsNote nodeType →
      isCultivationFamilyNodeType nodeType = false → (∀ e ∈ es, e.2.WF) →
      (insertNode what ⟨s.tipParents ++ ps, nodeType, s.cycleCounter, cbEncode es⟩).exec s =
        some (r, s') → Act s s'
  | successor {s s' : ServerState env} {name : String} {entry : SuccessorEntry}
      {position cycle : UInt64} {r : Except SubstrateError NodeHash} :
      (emitSubstrateEvent (successorChainUpdatedPrefix ++ name)
        (encodeSuccessorChainUpdated entry position cycle)).exec s = some (r, s') → Act s s'
  | alarm {s s' : ServerState env} {detectorId detectorName evidence : String}
      {r : Except SubstrateError NodeHash} :
      (emitImmuneSporocarp detectorId detectorName evidence).exec s = some (r, s') → Act s s'
  | write {s s' : ServerState env} : s'.ledger = s.ledger → s'.live = s.live →
      s'.cultivationState = s.cultivationState → Act s s'

/-- What a handler does that is not modelled. -/
abbrev Acts : ServerState env → ServerState env → Prop := Relation.ReflTransGen Act

theorem Act.lays {s s' : ServerState env} (h : Act s s') : Lays Now s s' := by
  cases h with
  | event ht hwf he => exact lays_event ht hwf _ _ _ he
  | insert ht hf hwf he =>
    exact lays_of_insertNode he rfl (fun hmem => ⟨rfl, ordinary_of_encode hwf ht rfl hmem⟩) hf
  | successor he =>
    exact lays_emitSubstrateEvent (fun c n ht hc ha hmem => ⟨ha, ordinary_successor ht hc
      (hc ▸ hmem)⟩) _ _ _ he
  | alarm he => exact lays_emitImmuneSporocarp _ _ _ he
  | write hl hlive hv => exact .of_ledger_eq hl hlive hv

theorem Acts.lays {s s' : ServerState env} (h : Acts s s') : Lays Now s s' := by
  induction h with
  | refl => exact Std.Refl.refl s
  | tail _ hact ih => exact IsTrans.trans _ _ _ ih hact.lays

end Myco.Substrate
