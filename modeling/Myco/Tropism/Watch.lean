import Myco.Prune.Scan
import Myco.Substrate.Additions

/-!
# Watching a part of the log

A law about the substrate looks at some types of event in the log and at some of the settings: that
is a `Watch`. Most of what a substrate does is `Aside` of it: nothing that is watched is appended
and the settings look as before. `aside_*` says so, for any watch, of the functions that emit.
-/

namespace Myco.Tropism

open Myco.Lib Myco.Canonical Myco.Schema Myco.Substrate Myco.Federation Myco.Prune

variable {env : Env}

/-! ### What is watched -/

/-- What declarations, migrations and cycles change. -/
structure Settings where
  cycleCounter : UInt64
  migrationCandidate : Option CandidateState
  pendingSelfDrivenNoopCycles : UInt64
  axisRegisterCount : UInt64
  handshakeComplete : Bool
  party : FederationState × List Hash32 × Option Hash32 × Hash32
  backupEncryptionStatus : Option String
  ownerObjective : Option OwnerObjective
  successorChain : List SuccessorEntry
  successionConfig : Option SuccessionConfig
  cultivationState : CultivationState

def settings (s : ServerState env) : Settings where
  cycleCounter := s.cycleCounter
  migrationCandidate := s.migrationCandidate
  pendingSelfDrivenNoopCycles := s.pendingSelfDrivenNoopCycles
  axisRegisterCount := s.axisRegisterCount
  handshakeComplete := s.handshakeComplete
  party := s.party
  backupEncryptionStatus := s.backupEncryptionStatus
  ownerObjective := s.ownerObjective
  successorChain := s.successorChain
  successionConfig := s.successionConfig
  cultivationState := s.cultivationState

/-- A type of event that starts with one of the texts. -/
def Watched (ws : List String) (nodeType : String) : Prop := ∃ w ∈ ws, startsWith w nodeType

instance (ws : List String) (nodeType : String) : Decidable (Watched ws nodeType) :=
  inferInstanceAs (Decidable (∃ w ∈ ws, startsWith w nodeType))

theorem not_watched {ws : List String} {p nodeType : String} (h : startsWith p nodeType)
    (hp : ∀ w ∈ ws, Apart p w) : ¬ Watched ws nodeType := by
  rintro ⟨w, hw, hs⟩
  exact not_startsWith h (hp w hw) hs

theorem not_watched_type {ws : List String} {t : String} (hp : ∀ w ∈ ws, Apart t w) :
    ¬ Watched ws t :=
  not_watched (p := t) (by simp [startsWith]) hp

theorem Watched.mono {ws us : List String} {nodeType : String} (h : Watched ws nodeType)
    (hu : ∀ w ∈ ws, w ∈ us) : Watched us nodeType := by
  obtain ⟨w, hw, hs⟩ := h
  exact ⟨w, hu w hw, hs⟩

def cultivationTexts : List String :=
  [betRetiredPrefix, cultivationRecoveredPrefix, cultivationOrphanedPrefix,
    successionCompletedPrefix]

def selfEuthanasiaProposalPrefix : String := "self_euthanasia_proposal:"

/-- What events start with that cycles and detectors emit. -/
def commonTexts : List String :=
  [immunePrefix, sporocarpPrefix, selfEuthanasiaProposalPrefix, internalMortalityEventPrefix,
    absorptionPrefix, cultivarInitiatedIngestionRequestType]

structure Watch where
  texts : List String
  View : Type
  see : Settings → View
  uncommon : ∀ p ∈ commonTexts, ∀ w ∈ texts, Apart p w
  cultivation : ∀ w ∈ cultivationTexts, w ∈ texts

theorem Watch.not_common (W : Watch) {p nodeType : String} (hp : p ∈ commonTexts)
    (h : startsWith p nodeType) : ¬ Watched W.texts nodeType :=
  not_watched h (W.uncommon p hp)

/-- The nodes of some types. -/
def logOf (ws : List String) (s : ServerState env) : List DagNode :=
  s.nodes.filter fun n => Watched ws n.nodeType

/-! ### Aside -/

/-- Nothing that is watched is appended, the settings look as before, and what has collided
still has. -/
structure Aside (W : Watch) (s s' : ServerState env) : Prop where
  nodes : ∃ ns, s'.nodes = s.nodes ++ ns ∧ ∀ n ∈ ns, ¬ Watched W.texts n.nodeType
  see : W.see (settings s') = W.see (settings s)
  collided : Collided s → Collided s'

variable {W : Watch}

instance : IsPreorder (ServerState env) (Aside W) where
  refl s := ⟨⟨[], by simp⟩, rfl, id⟩
  trans s t u h h' := by
    obtain ⟨ns, h1, h2⟩ := h.nodes
    obtain ⟨ms, h3, h4⟩ := h'.nodes
    refine ⟨⟨ns ++ ms, by rw [h3, h1, List.append_assoc], fun n hn => ?_⟩, h'.see.trans h.see,
      fun hc => h'.collided (h.collided hc)⟩
    exact (List.mem_append.1 hn).elim (h2 n) (h4 n)

theorem Aside.logOf {s s' : ServerState env} (h : Aside W s s') {ws : List String}
    (hws : ∀ w ∈ ws, w ∈ W.texts) : logOf ws s' = logOf ws s := by
  obtain ⟨ns, h1, h2⟩ := h.nodes
  have hnil : ns.filter (fun n => Watched ws n.nodeType) = [] :=
    List.filter_eq_nil_iff.2 fun n hn => by simpa using fun hw => h2 n hn (Watched.mono hw hws)
  rw [Tropism.logOf, Tropism.logOf, h1, List.filter_append, hnil, List.append_nil]

theorem Aside.of_ledger {s s' : ServerState env} (hl : s'.ledger = s.ledger)
    (hs : W.see (settings s') = W.see (settings s)) : Aside W s s' :=
  ⟨⟨[], by simp [ServerState.nodes, hl]⟩, hs, fun hc => by rwa [Collided, hl]⟩

/-! ### Programs aside -/

section

variable {what nodeType detectorId detectorName evidence : String} {content : Bytes}

theorem aside_modify {g : ServerState env → ServerState env} (hl : ∀ s, (g s).ledger = s.ledger)
    (hs : ∀ s, W.see (settings (g s)) = W.see (settings s)) :
    Within (Aside W) (modify g : Handler env PUnit) :=
  within_modify fun s => .of_ledger (hl s) (hs s)

theorem aside_insertNode {c : Insertion} (h : ¬ Watched W.texts c.nodeType) :
    Within (Aside W) (Substrate.insertNode what c : Handler env NodeHash) := by
  intro s r s' he
  rw [exec_insertNode] at he
  split at he
  · cases he
    refine ⟨?_, rfl, fun hc hs => hc hs.of_push⟩
    rcases s.ledger.push_cases c with ⟨-, -, -, hn⟩ | ⟨-, -, -, -, -, -, hn⟩ | ⟨-, hn⟩
    · exact ⟨[], by simp [ServerState.nodes, hn]⟩
    · exact ⟨[], by simp [ServerState.nodes, hn]⟩
    · exact ⟨[c.node env.blake3], hn, fun n hm => List.mem_singleton.1 hm ▸ h⟩
  · cases he

theorem aside_readClock : Within (Aside W) (readClock : Handler env Int64) :=
  within_bind within_get fun _ =>
    within_bind (aside_modify (fun _ => rfl) fun _ => rfl) fun _ => within_pure

/-- Only the types of the cultivation family refresh the state that is derived from them. -/
theorem refreshCultivation_of_not_watched (s : ServerState env) {ws : List String}
    (hc : ∀ w ∈ cultivationTexts, w ∈ ws) (h : ¬ Watched ws nodeType) :
    s.refreshCultivation nodeType = s := by
  have hne : ∀ w ∈ cultivationTexts, ¬ startsWith w nodeType := fun w hw hs => h ⟨w, hc w hw, hs⟩
  unfold ServerState.refreshCultivation
  refine if_neg fun hf => ?_
  simp only [isCultivationFamilyNodeType, Bool.or_eq_true, decide_eq_true_eq] at hf
  rcases hf with ((hf | hf) | hf) | hf
  · exact hne _ (by simp [cultivationTexts]) hf
  · exact hne _ (by simp [cultivationTexts]) hf
  · exact hne _ (by simp [cultivationTexts]) hf
  · exact hne _ (by simp [cultivationTexts]) hf

theorem aside_emitSubstrateEvent (h : ¬ Watched W.texts nodeType) :
    Within (Aside W) (emitSubstrateEvent nodeType content : Handler env NodeHash) := by
  refine within_bind within_get fun _ => within_bind (aside_insertNode h) fun _ => ?_
  refine within_bind (within_modify fun s => ?_) fun _ => within_pure
  rw [refreshCultivation_of_not_watched s W.cultivation h]
  exact Std.Refl.refl s

theorem aside_emitFresh {t : Int64} {k : UInt64} :
    Within (Aside W) (emitFresh detectorId detectorName evidence t k : Handler env NodeHash) :=
  within_bind within_get fun _ =>
    within_bind (aside_insertNode (W.not_common (p := immunePrefix) (by simp [commonTexts])
      startsWith_append)) fun _ =>
    within_bind (aside_modify (fun _ => rfl) fun _ => rfl) fun _ => within_pure

theorem aside_emitImmuneSporocarp : Within (Aside W)
    (emitImmuneSporocarp detectorId detectorName evidence : Handler env NodeHash) := by
  refine within_bind aside_readClock fun _ => within_bind within_get fun s => ?_
  cases OrdMap.get detectorId s.immuneEmissionState with
  | none => exact aside_emitFresh
  | some prior =>
    dsimp only
    split
    · exact within_bind (aside_modify (fun _ => rfl) fun _ => rfl) fun _ => within_pure
    · exact aside_emitFresh

theorem aside_runPruneScan {currentCycle : UInt64} :
    Within (Aside W) (runPruneScan currentCycle : Handler env PruneScanReport) := by
  refine within_bind within_get fun _ => within_bind (within_mapM fun rule _ => ?_)
    fun _ => within_pure
  refine within_bind within_get fun _ => within_mapM fun cand _ => ?_
  exact within_bind within_get fun _ => aside_insertNode
    (W.not_common (p := internalMortalityEventPrefix) (by simp [commonTexts]) startsWith_append)

end

/-! ### Shunning some types -/

/-- Nothing of these types is appended, and what has collided still has. -/
structure Shuns (ws : List String) (s s' : ServerState env) : Prop where
  nodes : ∃ ns, s'.nodes = s.nodes ++ ns ∧ ∀ n ∈ ns, ¬ Watched ws n.nodeType
  collided : Collided s → Collided s'

section

variable {ws us : List String} {what nodeType detectorId detectorName evidence : String}
  {content : Bytes}

instance : IsPreorder (ServerState env) (Shuns ws) where
  refl s := ⟨⟨[], by simp⟩, id⟩
  trans s t u h h' := by
    obtain ⟨ns, h1, h2⟩ := h.nodes
    obtain ⟨ms, h3, h4⟩ := h'.nodes
    refine ⟨⟨ns ++ ms, by rw [h3, h1, List.append_assoc], fun n hn => ?_⟩,
      fun hc => h'.collided (h.collided hc)⟩
    exact (List.mem_append.1 hn).elim (h2 n) (h4 n)

theorem Shuns.mono {s s' : ServerState env} (h : Shuns ws s s') (hu : ∀ u ∈ us, u ∈ ws) :
    Shuns us s s' := by
  obtain ⟨ns, h1, h2⟩ := h.nodes
  exact ⟨⟨ns, h1, fun n hn hw => h2 n hn (hw.mono hu)⟩, h.collided⟩

theorem Shuns.of_ledger {s s' : ServerState env} (hl : s'.ledger = s.ledger) : Shuns ws s s' :=
  ⟨⟨[], by simp [ServerState.nodes, hl]⟩, fun hc => by rwa [Collided, hl]⟩

theorem Aside.shuns {s s' : ServerState env} (h : Aside W s s') (hw : ∀ w ∈ ws, w ∈ W.texts) :
    Shuns ws s s' := by
  obtain ⟨ns, h1, h2⟩ := h.nodes
  exact ⟨⟨ns, h1, fun n hn hs => h2 n hn (hs.mono hw)⟩, h.collided⟩

theorem Shuns.filter {s s' : ServerState env} (h : Shuns ws s s') :
    s'.nodes.filter (fun n => Watched ws n.nodeType) =
      s.nodes.filter fun n => Watched ws n.nodeType := by
  obtain ⟨ns, h1, h2⟩ := h.nodes
  have hnil : ns.filter (fun n => Watched ws n.nodeType) = [] :=
    List.filter_eq_nil_iff.2 fun n hn => by simpa using h2 n hn
  rw [h1, List.filter_append, hnil, List.append_nil]

theorem shuns_modify {g : ServerState env → ServerState env} (hl : ∀ s, (g s).ledger = s.ledger) :
    Within (Shuns ws) (modify g : Handler env PUnit) :=
  within_modify fun s => .of_ledger (hl s)

theorem shuns_insertNode {c : Insertion} (h : ¬ Watched ws c.nodeType) :
    Within (Shuns ws) (Substrate.insertNode what c : Handler env NodeHash) := by
  intro s r s' he
  have hcollided : Collided s → Collided s' := by
    rw [exec_insertNode] at he
    split at he
    · cases he
      exact fun hc hs => hc hs.of_push
    · cases he
  obtain ⟨ns, hn, hns⟩ :=
    (adds_insertNode (P := fun n => ¬ Watched ws n.nodeType) (fun _ => h) _ _ _ he).nodes
  exact ⟨⟨ns, hn, hns⟩, hcollided⟩

theorem shuns_readClock : Within (Shuns ws) (readClock : Handler env Int64) :=
  within_bind within_get fun _ => within_bind (shuns_modify fun _ => rfl) fun _ => within_pure

theorem shuns_emitSubstrateEvent (h : ¬ Watched ws nodeType) :
    Within (Shuns ws) (emitSubstrateEvent nodeType content : Handler env NodeHash) :=
  within_bind within_get fun _ => within_bind (shuns_insertNode h) fun _ =>
    within_bind (shuns_modify ServerState.refreshCultivation_ledger) fun _ => within_pure

theorem shuns_emitFresh {t : Int64} {k : UInt64} (h : ¬ Watched ws (immunePrefix ++ detectorId)) :
    Within (Shuns ws) (emitFresh detectorId detectorName evidence t k : Handler env NodeHash) :=
  within_bind within_get fun _ => within_bind (shuns_insertNode h) fun _ =>
    within_bind (shuns_modify fun _ => rfl) fun _ => within_pure

theorem shuns_emitImmuneSporocarp (h : ¬ Watched ws (immunePrefix ++ detectorId)) :
    Within (Shuns ws) (emitImmuneSporocarp detectorId detectorName evidence :
      Handler env NodeHash) := by
  refine within_bind shuns_readClock fun _ => within_bind within_get fun s => ?_
  cases OrdMap.get detectorId s.immuneEmissionState with
  | none => exact shuns_emitFresh h
  | some prior =>
    dsimp only
    split
    · exact within_bind (shuns_modify fun _ => rfl) fun _ => within_pure
    · exact shuns_emitFresh h

end

end Myco.Tropism
