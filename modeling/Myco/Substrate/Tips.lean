import Myco.Lib.Grows
import Myco.Substrate.Additions

/-!
# Programs that append at the tip

`Extends kind`: all that a program does to the log is to append nodes of the given kind, each with
the tip for its only parent; the substrate stays the same party to its federation, and what the log
determines stays as it is.
-/

namespace Myco.Substrate

open Myco.Lib Myco.Canonical Myco.Schema Myco.Federation

variable {env : Env}

/-- The last node of a log, as the parents of the next one. -/
def tipOf (log : List DagNode) : List NodeHash := (log.map DagNode.hash).getLast?.toList

/-- A node of this kind on the tip of the log. -/
structure OnTip (kind : String → Prop) (log : List DagNode) (n : DagNode) : Prop where
  parents : n.parentHashes = tipOf log
  kind : kind n.nodeType

structure Extends (kind : String → Prop) (s s' : ServerState env) : Prop where
  log : Grows (OnTip kind) s.nodes s'.nodes
  party : s'.party = s.party
  live : s'.live = s.live

variable {kind : String → Prop}

instance : IsPreorder (ServerState env) (Extends kind) where
  refl _ := ⟨.refl, rfl, rfl⟩
  trans _ _ _ h h' := ⟨h.log.trans h'.log, h'.party.trans h.party, h'.live.trans h.live⟩

theorem tipParents_eq {s : ServerState env} : s.tipParents = tipOf s.nodes := by
  rw [ServerState.tipParents, Ledger.tip_eq]
  rfl

theorem extends_modify {g : ServerState env → ServerState env} (hl : ∀ s, (g s).ledger = s.ledger)
    (hp : ∀ s, (g s).party = s.party) (hv : ∀ s, (g s).live = s.live) :
    Within (Extends kind) (modify g : Handler env PUnit) :=
  within_modify fun s => by
    have hn : (g s).nodes = s.nodes := congrArg Ledger.nodes (hl s)
    exact ⟨hn ▸ .refl, hp s, hv s⟩

theorem extends_readClock : Within (Extends kind) (readClock : Handler env Int64) :=
  within_bind within_get fun _ =>
    within_bind (extends_modify (fun _ => rfl) (fun _ => rfl) fun _ => rfl) fun _ => within_pure

/-- One call of `insert_node` with the tip for the only parent. -/
theorem extends_insertNode {what : String} {c : ServerState env → Insertion}
    (hp : ∀ s, (c s).parentHashes = s.tipParents) (hk : ∀ s, kind (c s).nodeType) :
    Within (Extends kind) (get >>= fun s => insertNode what (c s) : Handler env NodeHash) := by
  intro s r s' h
  rw [Prog.exec_get_bind] at h
  have hsame : s'.party = s.party ∧ s'.live = s.live := by
    rw [exec_insertNode] at h
    split at h
    · cases h
      exact ⟨rfl, rfl⟩
    · cases h
  refine ⟨?_, hsame.1, hsame.2⟩
  rcases insertNode_tip_cases h (by rw [hp, List.append_nil]) with ⟨e, -, hn⟩ | ⟨-, hn, -⟩
  · rw [hn]
    exact .refl
  · rw [hn]
    refine .snoc .refl ⟨?_, hk s⟩
    rw [← tipParents_eq]
    exact hp s

/-- The same, with what comes after it. -/
theorem extends_insertNode_bind {α : Type} {what : String} {c : ServerState env → Insertion}
    {f : NodeHash → Handler env α} (hp : ∀ s, (c s).parentHashes = s.tipParents)
    (hk : ∀ s, kind (c s).nodeType) (hf : ∀ h, Within (Extends kind) (f h)) :
    Within (Extends kind) (get >>= fun s => insertNode what (c s) >>= f) := by
  have hassoc : (get >>= fun s => insertNode what (c s) >>= f) =
      (get >>= fun s => insertNode what (c s)) >>= f := (bind_assoc _ _ _).symm
  rw [hassoc]
  exact within_bind (extends_insertNode hp hk) hf

theorem extends_emitSubstrateEvent {nodeType : String} {content : Bytes} (h : kind nodeType) :
    Within (Extends kind) (emitSubstrateEvent nodeType content : Handler env NodeHash) :=
  extends_insertNode_bind (fun _ => rfl) (fun _ => h) fun _ =>
    within_bind (extends_modify ServerState.refreshCultivation_ledger refreshCultivation_party
      ServerState.refreshCultivation_live) fun _ => within_pure

theorem extends_emitFresh {detectorId detectorName evidence : String} {t : Int64} {k : UInt64}
    (h : kind (immunePrefix ++ detectorId)) :
    Within (Extends kind) (emitFresh detectorId detectorName evidence t k :
      Handler env NodeHash) :=
  extends_insertNode_bind (fun _ => rfl) (fun _ => h) fun _ =>
    within_bind (extends_modify (fun _ => rfl) (fun _ => rfl) fun _ => rfl) fun _ => within_pure

theorem extends_emitImmuneSporocarp {detectorId detectorName evidence : String}
    (h : kind (immunePrefix ++ detectorId)) :
    Within (Extends kind) (emitImmuneSporocarp detectorId detectorName evidence :
      Handler env NodeHash) := by
  refine within_bind extends_readClock fun _ => within_bind within_get fun s => ?_
  cases OrdMap.get detectorId s.immuneEmissionState with
  | none => exact extends_emitFresh h
  | some prior =>
    dsimp only
    split
    · exact within_bind (extends_modify (fun _ => rfl) (fun _ => rfl) fun _ => rfl)
        fun _ => within_pure
    · exact extends_emitFresh h

end Myco.Substrate
