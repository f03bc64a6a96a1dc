import Myco.Substrate.Additions

/-!
# Absorption

What `handle_advance` of `substrate/src/ingest.rs` does about raw material: the nodes that are
pending, and the event that records that they have been absorbed. Nothing else appends events of
this type, so in a log that a substrate has grown from nothing they list parents of theirs only
(`Grown.absorbsParents`), and what a log replays to does not depend on the records that follow it
(`fromDag_append`).
-/

namespace Myco.Substrate

open Myco.Lib Myco.Canonical Myco.Schema Myco.Federation

variable {env : Env}

/-! ### The code -/

/-- The raw material that has not been absorbed. -/
def pendingAbsorptionHashes (s : ServerState env) : List NodeHash :=
  (s.nodes.filter fun n => startsWith rawMaterialPrefix n.nodeType ∧
    s.lastAbsorbedCycle.all (· < n.createdAtCycle)).map DagNode.hash

/-- The tip and the material, none of it twice. -/
def absorptionParents (s : ServerState env) (pending : List NodeHash) : List NodeHash :=
  pending.foldl (fun parents h => if h ∈ parents then parents else parents ++ [h]) s.tipParents

/-- The absorption event of a cycle, if anything was pending when the cycle began. -/
def emitAbsorptionEvent (postCycle : UInt64) (pending : List NodeHash) :
    Handler env (Option NodeHash) := do
  if pending.isEmpty then pure none
  else
    let s ← get
    let maxAbsorbedCreatedAt :=
      ((pending.filterMap s.ledger.dag.get).map DagNode.createdAtCycle).max?.getD 0
    let h ← insertNode "absorption_event DAG insert" ⟨absorptionParents s pending,
      absorptionEventNodeType postCycle, postCycle, encodeAbsorptionEvent postCycle pending⟩
    modify fun s => { s with lastAbsorbedCycle := some maxAbsorbedCreatedAt }
    pure (some h)

/-! ### Logs that have grown -/

/-- A step of a substrate, as far as absorption goes: the absorption event of a cycle that began
with the log it extends, or anything else, which appends no such event. -/
inductive GrowthStep : ServerState env → ServerState env → Prop
  | absorption {u s t : ServerState env} {postCycle : UInt64}
      {r : Except SubstrateError (Option NodeHash)} : u.nodes <+: s.nodes →
      (emitAbsorptionEvent postCycle (pendingAbsorptionHashes u)).exec s = some (r, t) →
      GrowthStep s t
  | other {s t : ServerState env} {ns : List DagNode} : t.nodes = s.nodes ++ ns →
      (∀ n ∈ ns, family n.nodeType ≠ .absorption) → GrowthStep s t

/-- A state that a substrate reaches from an empty log. -/
def Grown (s : ServerState env) : Prop :=
  ∃ s0 : ServerState env, s0.nodes = [] ∧ Relation.ReflTransGen GrowthStep s0 s

/-- If it is an absorption event, it lists parents of its own. -/
def AbsorbsParents (n : DagNode) : Prop :=
  family n.nodeType = .absorption → absorbedHashes n ⊆ n.parentHashes

theorem mem_absorptionParents {s : ServerState env} {pending : List NodeHash} {h : NodeHash} :
    h ∈ absorptionParents s pending ↔ h ∈ s.tipParents ∨ h ∈ pending := by
  unfold absorptionParents
  generalize s.tipParents = parents
  induction pending generalizing parents with
  | nil => simp
  | cons p pending ih =>
    rw [List.foldl_cons, ih]
    by_cases hp : p ∈ parents
    · rw [if_pos hp, List.mem_cons]
      constructor
      · rintro (h | h)
        · exact .inl h
        · exact .inr (.inr h)
      · rintro (h | rfl | h)
        · exact .inl h
        · exact .inl hp
        · exact .inr h
    · rw [if_neg hp, List.mem_append, List.mem_singleton, List.mem_cons, or_assoc]

/-- The tip comes first, if there is one. -/
theorem absorptionParents_eq (s : ServerState env) (pending : List NodeHash) :
    ∃ ps, absorptionParents s pending = s.tipParents ++ ps ∧ ∀ p ∈ ps, p ∈ pending := by
  unfold absorptionParents
  generalize s.tipParents = parents
  induction pending generalizing parents with
  | nil => exact ⟨[], by simp⟩
  | cons p pending ih =>
    rw [List.foldl_cons]
    by_cases hp : p ∈ parents
    · obtain ⟨ps, h1, h2⟩ := ih parents
      rw [if_pos hp]
      exact ⟨ps, h1, fun q hq => List.mem_cons_of_mem _ (h2 q hq)⟩
    · obtain ⟨ps, h1, h2⟩ := ih (parents ++ [p])
      rw [if_neg hp, h1]
      refine ⟨p :: ps, by simp, List.forall_mem_cons.2 ⟨List.mem_cons_self, fun q hq => ?_⟩⟩
      exact List.mem_cons_of_mem _ (h2 q hq)

/-- Only a collision keeps the event of material that is in the log from it. -/
theorem emitAbsorptionEvent_ends {postCycle : UInt64} {pending : List NodeHash}
    {s t : ServerState env} {r : Except SubstrateError (Option NodeHash)}
    (hpend : ∀ k ∈ pending, k ∈ s.nodes.map DagNode.hash)
    (h : (emitAbsorptionEvent postCycle pending).exec s = some (r, t)) :
    Barring (fun _ _ => ∃ a, r = .ok a) s t := by
  have htype : absorptionEventNodeType postCycle ≠ "" :=
    ne_empty_of_startsWith startsWith_append (q := genesisPrefix) (by decide)
  unfold emitAbsorptionEvent at h
  by_cases hp : pending.isEmpty
  · rw [if_pos hp] at h
    cases h
    exact ⟨id, fun _ => ⟨_, rfl⟩⟩
  · rw [if_neg hp, Prog.exec_get_bind] at h
    obtain ⟨ps, hps, hmem⟩ := absorptionParents_eq s pending
    rcases Prog.exec_bind_eq_some.1 h with ⟨e, h1, -⟩ | ⟨hash, u, h1, h2⟩
    · exact (insertNode_tip h1 htype hps fun p hp => hpend p (hmem p hp)).imp
        fun ⟨hr, _⟩ => by cases hr
    · cases h2
      have hb := insertNode_tip h1 htype hps fun p hp => hpend p (hmem p hp)
      exact ⟨fun hc => hb.stays hc, fun _ => ⟨_, rfl⟩⟩

theorem emitAbsorptionEvent_nodes {postCycle : UInt64} {pending : List NodeHash}
    {s t : ServerState env} {r : Except SubstrateError (Option NodeHash)}
    (h : (emitAbsorptionEvent postCycle pending).exec s = some (r, t)) :
    ∃ ns, t.nodes = s.nodes ++ ns ∧ ∀ n ∈ ns, AbsorbsParents n := by
  unfold emitAbsorptionEvent at h
  by_cases hp : pending.isEmpty
  · rw [if_pos hp] at h
    cases h
    exact ⟨[], by simp⟩
  · rw [if_neg hp, Prog.exec_get_bind] at h
    have hins : ∀ r u, (insertNode "absorption_event DAG insert" ⟨absorptionParents s pending,
        absorptionEventNodeType postCycle, postCycle,
        encodeAbsorptionEvent postCycle pending⟩).exec s = some (r, u) →
        ∃ ns, u.nodes = s.nodes ++ ns ∧ ∀ n ∈ ns, AbsorbsParents n := by
      intro r u hu
      refine (adds_insertNode (P := AbsorbsParents) (fun hmem _ => ?_) s r u hu).nodes
      have hlists : ∀ n : DagNode, n.content = encodeAbsorptionEvent postCycle pending →
          n.content.length ≤ isizeMax → absorbedHashes n = pending := fun n => absorbedHashes_eq
      rw [hlists _ rfl hmem]
      exact fun k hk => mem_absorptionParents.2 (.inr hk)
    rcases Prog.exec_bind_eq_some.1 h with ⟨e, h1, -⟩ | ⟨hash, u, h1, h2⟩
    · exact hins _ _ h1
    · cases h2
      exact hins (.ok hash) u h1

theorem GrowthStep.nodes {s t : ServerState env} (h : GrowthStep s t) :
    ∃ ns, t.nodes = s.nodes ++ ns ∧ ∀ n ∈ ns, AbsorbsParents n := by
  cases h with
  | absorption _ h => exact emitAbsorptionEvent_nodes h
  | other hn hns => exact ⟨_, hn, fun n hm hf => absurd hf (hns n hm)⟩

theorem Grown.absorbsParents {s : ServerState env} (h : Grown s) :
    ∀ n ∈ s.nodes, AbsorbsParents n := by
  obtain ⟨s0, h0, hsteps⟩ := h
  induction hsteps with
  | refl =>
    rw [h0]
    nofun
  | tail _ hstep ih =>
    obtain ⟨ns, hn, hns⟩ := hstep.nodes
    intro n hm
    rw [hn] at hm
    exact (List.mem_append.1 hm).elim (ih n) (hns n)

/-! ### Replaying what has grown -/

/-- Records at the end of a log do not change what it replays to. -/
theorem fromDag_append {blake3 : Bytes → NodeHash} {xs ys : List DagNode}
    (hr : Recorded blake3 (xs ++ ys)) (habs : ∀ n ∈ xs, AbsorbsParents n)
    (hys : ∀ n ∈ ys, family n.nodeType = .pureRecord) :
    fromDag (.ofNodes (xs ++ ys)) = fromDag (.ofNodes xs) := by
  have hall : AbsorbsOwnParents (.ofNodes (xs ++ ys)) := by
    intro n hn hf
    rw [Dag.iter_ofNodes hr.nodup] at hn
    rcases List.mem_append.1 hn with hn | hn
    · exact habs n hn hf
    · rw [hys n hn] at hf
      cases hf
  have hrest : ∀ s, replay (applyEventWithDag (some (.ofNodes (xs ++ ys)))) ys s = (.ok (), s) :=
    replay_const fun n hn s => apply_pureRecord (hys n hn)
  rw [fromDag, fromDag, Dag.iter_ofNodes hr.nodup, Dag.iter_ofNodes hr.of_append.nodup,
    replay_append_of_const hrest]
  exact congrArg Applied.toReading
    (replay_congr fun n hn s => applyEventWithDag_prefix hr hall hn s)

end Myco.Substrate
