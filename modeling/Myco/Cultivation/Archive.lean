import Myco.Cultivation.SuccessorChain
import Myco.Tropism.Rounds

/-!
# Succession and the archive

`handle_accept_succession` and `handle_accept_bet_retired_proposal` of
`substrate/src/cultivation.rs`, in runs with everything else that a substrate does, with saves at
any moment and with restarts. The state of the succession is memoized, and the three places that
advance the cycle, a request, a tick and a flush, read the memo.

- `cultivation_warranted`: what the log says of the succession was warranted when it was said, and
  the memo is what the log says.
- `archive_is_terminal`: from an accepted retirement on the substrate is archived, no cycle is
  advanced any more, and nothing but a restart moves the counter.
-/

namespace Myco.Substrate

def CultivationState.label : CultivationState → String
  | .normal => "alive::normal"
  | .legacy => "alive::legacy"
  | .orphaned => "alive::orphaned"
  | .archived => "alive::archived"
  | .recovered => "alive::normal(recovered)"

end Myco.Substrate

namespace Myco.Cultivation

open Myco.Lib Myco.Canonical Myco.Schema Myco.Substrate Myco.Federation
open Myco.Tropism (BootFiles bootState Runtime Aside Watch Watched cultivationTexts)

variable {env : Env} {rt : Runtime}

/-! ### The code -/

def catechumenateMinSessions : UInt64 := 50

def catechumenateBelowMin (sessionCount : UInt64) : Bool := sessionCount < catechumenateMinSessions

/-- What `accept_succession` reads of a request. -/
structure Succession where
  successorPubkey : Hash32
  priorCultivatorPubkey : Hash32
  anchorTimestampUnixNs : Int64
  catechumenateSessionCount : UInt64

def readSuccession (request : Message) : Except SubstrateError Succession := do
  let successorPubkey ← payloadBytes32 request "successor_pubkey"
  let priorCultivatorPubkey ← payloadBytes32 request "prior_cultivator_pubkey"
  let anchorTimestampUnixNs ← payloadTimestamp request "anchor_timestamp_unix_ns"
  match OrdMap.get "catechumenate_session_count" request.payload with
  | some (.uint n) => .ok ⟨successorPubkey, priorCultivatorPubkey, anchorTimestampUnixNs, n⟩
  | _ => .error (.protocol "accept_succession: catechumenate_session_count must be Uint")

def successionCompletedNodeType (successorPubkey : Hash32) : String :=
  successionCompletedPrefix ++ hexFirst8Bytes successorPubkey

def encodeSuccessionCompleted (r : Succession) (completedAtCycle : UInt64) : Bytes :=
  cbEncode [("successor_pubkey", hashValue r.successorPubkey),
    ("prior_cultivator_pubkey", hashValue r.priorCultivatorPubkey),
    ("anchor_timestamp_unix_ns", .timestamp r.anchorTimestampUnixNs),
    ("catechumenate_session_count", .uint r.catechumenateSessionCount),
    ("completed_at_cycle", .uint completedAtCycle)]

def belowMinEvidence (sessionCount : UInt64) : String :=
  s!"accept_succession: catechumenate_session_count={sessionCount
  } < CATECHUMENATE_MIN_SESSIONS={catechumenateMinSessions
  }; F21 activation REQUIRES ≥50 dual-signed Layer-D sessions (COV06 §5.3 + META §6.3). " ++
  "Premature succession = owner_succession_bypass."

def handleAcceptSuccession (request : Message) : Handler env (Option Message) := do
  match readSuccession request with
  | .error e => throw e
  | .ok r =>
    if catechumenateBelowMin r.catechumenateSessionCount then
      let evidence := belowMinEvidence r.catechumenateSessionCount
      let _ ← (emitImmuneSporocarp "C46_owner_succession_bypass" "owner_succession_bypass"
        evidence).attempt
      throw (.protocol evidence)
    else
      let s ← get
      let completedHash ← emitSubstrateEvent (successionCompletedNodeType r.successorPubkey)
        (encodeSuccessionCompleted r s.cycleCounter)
      let s ← get
      pure (respond "accept_succession_response" request
        [("completed_event_hash", hashValue completedHash),
          ("cultivation_state", .string s.cultivationState.label)])

def betRetiredProposalType : String := "bet_retired_proposal"

def betRetiredNodeType (reason : String) : String := betRetiredPrefix ++ reason

def encodeBetRetired (reason : String) (proposalHash : NodeHash) (sealedAtCycle : UInt64)
    (anchorTimestampUnixNs : Int64) : Bytes :=
  cbEncode [("reason", .string reason), ("proposal_hash", hashValue proposalHash),
    ("sealed_at_cycle", .uint sealedAtCycle),
    ("anchor_timestamp_unix_ns", .timestamp anchorTimestampUnixNs)]

/-- The reason in the content of a proposal. -/
def proposalReason (env : Env) (content : Bytes) : Except (Fault SubstrateError) String :=
  match decode content with
  | .error (.err e) => .error (.err (.protocol s!"decode proposal content: {
      env.canonicalErrorText e}"))
  | .error .panic => .error .panic
  | .error .stack => .error .stack
  | .ok (.map m) =>
    (mapGetString m "reason").mapError fun e => .err (.protocol (env.canonicalErrorText e))
  | .ok _ => .error (.err (.protocol "bet_retired_proposal content not a Map"))

/-- `anchorNow`: what `MYCO_TEST_ANCHOR_NOW_NS` says, if it is set. -/
def handleAcceptBetRetiredProposal (anchorNow : Option Int64) (request : Message) :
    Handler env (Option Message) := do
  match payloadBytes32 request "proposal_hash" with
  | .error e => throw e
  | .ok proposalHash =>
    let s ← get
    match s.ledger.dag.get proposalHash with
    | none => throw (.protocol "accept_bet_retired_proposal: proposal_hash not found in DAG")
    | some proposal =>
      if proposal.nodeType ≠ betRetiredProposalType then
        throw (.protocol s!"accept_bet_retired_proposal: proposal_hash points to {
          proposal.nodeType} (not a bet_retired_proposal)")
      else
        match proposalReason env proposal.content with
        | .error (.err e) => throw e
        | .error _ => Prog.halt
        | .ok reason =>
          let sealedHash ← emitSubstrateEvent (betRetiredNodeType reason)
            (encodeBetRetired reason proposalHash s.cycleCounter (anchorNow.getD 0))
          pure (respond "accept_bet_retired_proposal_response" request
            [("sealed_event_hash", hashValue sealedHash), ("reason", .string reason)])

/-! ### What is warranted -/

/-- An event of another family, or one that was warranted by what it says and by the log before
it: a succession by its sessions, a retirement by a proposal of the same reason. -/
inductive Warranted (env : Env) (log : List DagNode) (n : DagNode) : Prop
  | other : isCultivationFamilyNodeType n.nodeType = false → Warranted env log n
  | succession {r : Succession} {cycle : UInt64} : 50 ≤ r.catechumenateSessionCount.toNat →
      n.nodeType = successionCompletedNodeType r.successorPubkey →
      n.content = encodeSuccessionCompleted r cycle → Warranted env log n
  | retirement {p : DagNode} {reason : String} {cycle : UInt64} {anchor : Int64} : p ∈ log →
      p.nodeType = betRetiredProposalType → proposalReason env p.content = .ok reason →
      n.nodeType = betRetiredNodeType reason →
      n.content = encodeBetRetired reason p.hash cycle anchor → Warranted env log n

theorem isCultivationFamily_iff {nodeType : String} :
    isCultivationFamilyNodeType nodeType = true ↔ Watched cultivationTexts nodeType := by
  simp [isCultivationFamilyNodeType, Watched, cultivationTexts, or_assoc]

theorem not_family_of_not_watched {nodeType : String} (h : ¬ Watched cultivationTexts nodeType) :
    isCultivationFamilyNodeType nodeType = false :=
  Bool.eq_false_iff.2 fun hf => h (isCultivationFamily_iff.1 hf)

/-- The memo, and the events that it is made of. -/
def memo : Watch where
  texts := cultivationTexts
  View := CultivationState
  see s := s.cultivationState
  uncommon := Tropism.dial.uncommon
  cultivation := fun _ h => h

theorem sedentary_memo : memo.Sedentary := ⟨by decide, fun _ _ => rfl⟩

theorem heedless_memo : memo.Heedless := ⟨by decide, fun _ _ => rfl, fun _ _ => rfl⟩

/-- The log grows by what is warranted, and the memo stays what the log says. -/
structure Honest (s s' : ServerState env) : Prop where
  log : Grows (Warranted env) s.nodes s'.nodes
  cultivated : Cultivated s → Cultivated s'

theorem Honest.trans {s t u : ServerState env} (h : Honest s t) (h' : Honest t u) : Honest s u :=
  ⟨h.log.trans h'.log, fun hc => h'.cultivated (h.cultivated hc)⟩

theorem foldl_cultivationEvent {ns : List DagNode} {c : CultivationState}
    (h : ∀ n ∈ ns, isCultivationFamilyNodeType n.nodeType = false) :
    ns.foldl cultivationEvent c = c := by
  induction ns generalizing c with
  | nil => rfl
  | cons n ns ih =>
    rw [List.foldl_cons, cultivationEvent_of_not_family (h n List.mem_cons_self)]
    exact ih fun m hm => h m (List.mem_cons_of_mem n hm)

theorem Honest.of_aside {s s' : ServerState env} (h : Aside memo s s') : Honest s s' := by
  obtain ⟨ns, hn, hns⟩ := h.nodes
  have hother : ∀ n ∈ ns, isCultivationFamilyNodeType n.nodeType = false :=
    fun n hm => not_family_of_not_watched (hns n hm)
  refine ⟨?_, fun hc => ?_⟩
  · rw [hn]
    exact .of_forall_mem fun n hm _ => .other (hother n hm)
  · have hsee : s'.cultivationState = s.cultivationState := h.see
    rw [Cultivated, hsee, currentCultivationState, hn, List.foldl_append,
      foldl_cultivationEvent hother]
    exact hc

/-- An event that is emitted, with what it stands on. -/
theorem honest_of_emit {nodeType : String} {content : Bytes} {s s' : ServerState env}
    {r : Except SubstrateError NodeHash}
    (h : (emitSubstrateEvent nodeType content).exec s = some (r, s'))
    (hw : ∀ log n, s.nodes <+: log → n.nodeType = nodeType → n.content = content →
      Warranted env log n) : Honest s s' := by
  have hlays := lays_emitSubstrateEvent (P := fun _ n => n.nodeType = nodeType ∧
    n.content = content) (fun _ _ ht hc _ _ => ⟨ht, hc⟩) _ _ _ h
  refine ⟨hlays.log.mono_of_prefix fun log n hp hn => ?_, hlays.cultivated⟩
  exact hw log n hp hn.2.1 hn.2.2

/-! ### The handlers -/

/-- Every way that a succession can go. -/
theorem acceptSuccession_cases {request : Message} {s s' : ServerState env}
    {a : Except SubstrateError (Option Message)}
    (h : (handleAcceptSuccession request).exec s = some (a, s')) :
    (∀ W, Aside W s s') ∨ ∃ r, readSuccession request = .ok r ∧
      50 ≤ r.catechumenateSessionCount.toNat ∧ ∃ x,
      (emitSubstrateEvent (successionCompletedNodeType r.successorPubkey)
        (encodeSuccessionCompleted r s.cycleCounter)).exec s = some (x, s') := by
  rw [handleAcceptSuccession] at h
  cases hr : readSuccession request with
  | error e =>
    rw [hr] at h
    cases h
    exact .inl fun W => Std.Refl.refl (r := Aside W) s
  | ok r =>
    simp only [hr] at h
    split at h
    · exact .inl fun W => (within_bind (within_attempt Tropism.aside_emitImmuneSporocarp)
        fun _ => within_throw) _ _ _ h
    · rename_i hmin
      have hsessions : 50 ≤ r.catechumenateSessionCount.toNat := by
        have hle : ¬ r.catechumenateSessionCount < catechumenateMinSessions :=
          of_decide_eq_false (Bool.eq_false_iff.2 hmin)
        rw [UInt64.not_lt, UInt64.le_iff_toNat_le] at hle
        exact hle
      refine .inr ⟨r, rfl, hsessions, ?_⟩
      rw [Prog.exec_get_bind] at h
      rcases Prog.exec_bind_eq_some.1 h with ⟨e, h1, -⟩ | ⟨hash, t, h1, h2⟩
      · exact ⟨_, h1⟩
      · cases h2
        exact ⟨_, h1⟩

/-- Every way that a retirement can go. -/
theorem acceptBetRetired_cases {anchorNow : Option Int64} {request : Message}
    {s s' : ServerState env} {a : Except SubstrateError (Option Message)}
    (h : (handleAcceptBetRetiredProposal anchorNow request).exec s = some (a, s')) :
    (s' = s ∧ ∃ e, a = .error e) ∨ ∃ p ∈ s.nodes, ∃ reason,
      p.nodeType = betRetiredProposalType ∧ proposalReason env p.content = .ok reason ∧ ∃ x,
      (emitSubstrateEvent (betRetiredNodeType reason)
        (encodeBetRetired reason p.hash s.cycleCounter (anchorNow.getD 0))).exec s =
        some (x, s') ∧ (a.isOk → ∃ hash, x = .ok hash) := by
  rw [handleAcceptBetRetiredProposal] at h
  cases hread : payloadBytes32 request "proposal_hash" with
  | error e =>
    rw [hread] at h
    cases h
    exact .inl ⟨rfl, _, rfl⟩
  | ok proposalHash =>
    simp only [hread] at h
    rw [Prog.exec_get_bind] at h
    cases hget : s.ledger.dag.get proposalHash with
    | none =>
      rw [hget] at h
      cases h
      exact .inl ⟨rfl, _, rfl⟩
    | some p =>
      simp only [hget] at h
      obtain ⟨hmem, rfl⟩ := Ledger.get_eq_some.1 hget
      split at h
      · cases h
        exact .inl ⟨rfl, _, rfl⟩
      · rename_i htype
        cases hreason : proposalReason env p.content with
        | error f =>
          rw [hreason] at h
          cases f with
          | err e => cases h; exact .inl ⟨rfl, _, rfl⟩
          | panic => cases h
          | stack => cases h
        | ok reason =>
          simp only [hreason] at h
          refine .inr ⟨p, hmem, reason, not_not.1 htype, hreason, ?_⟩
          rcases Prog.exec_bind_eq_some.1 h with ⟨e, h1, rfl⟩ | ⟨hash, t, h1, h2⟩
          · exact ⟨_, h1, fun hok => by cases hok⟩
          · cases h2
            exact ⟨_, h1, fun _ => ⟨_, rfl⟩⟩

theorem honest_acceptSuccession {request : Message} :
    Within Honest (handleAcceptSuccession request : Handler env (Option Message)) := by
  intro s a s' h
  rcases acceptSuccession_cases h with h | ⟨r, -, hsessions, x, hx⟩
  · exact .of_aside (h memo)
  · exact honest_of_emit hx fun _ _ _ ht hc => .succession hsessions ht hc

theorem honest_acceptBetRetired {anchorNow : Option Int64} {request : Message} : Within Honest
    (handleAcceptBetRetiredProposal anchorNow request : Handler env (Option Message)) := by
  intro s a s' h
  rcases acceptBetRetired_cases h with ⟨rfl, -⟩ | ⟨p, hp, reason, hptype, hreason, x, hx, -⟩
  · exact ⟨.refl, id⟩
  · exact honest_of_emit hx fun _ _ hpre ht hc =>
      .retirement (hpre.subset hp) hptype hreason ht hc

/-! ### Runs -/

/-- What happens to a substrate. -/
inductive Affair where
  | event (e : Tropism.Event)
  | acceptSuccession (request : Message)
  | acceptBetRetiredProposal (anchorNow : Option Int64) (request : Message)
  /-- an event of the family that neither handler emits -/
  | family (nodeType : String)
  /-- a save in the middle of something -/
  | saveWithin

/-- With another server. -/
def withServer (m : Tropism.Machine env rt) (s : ServerState env) : Tropism.Machine env rt :=
  { m with host := { m.host with server := s } }

inductive Passage : Tropism.Machine env rt → Affair → Tropism.Machine env rt → Prop
  | event {m m' : Tropism.Machine env rt} {e : Tropism.Event} :
      Tropism.Step m e m' → Passage m (.event e) m'
  | acceptSuccession {m : Tropism.Machine env rt} {request : Message} {s : ServerState env}
      {a : Except SubstrateError (Option Message)} :
      (handleAcceptSuccession request).exec m.host.server = some (a, s) →
      Passage m (.acceptSuccession request) (withServer m s)
  | acceptBetRetiredProposal {m : Tropism.Machine env rt} {anchorNow : Option Int64}
      {request : Message} {s : ServerState env} {a : Except SubstrateError (Option Message)} :
      (handleAcceptBetRetiredProposal anchorNow request).exec m.host.server = some (a, s) →
      Passage m (.acceptBetRetiredProposal anchorNow request) (withServer m s)
  | family {m : Tropism.Machine env rt} {nodeType : String} {content : Bytes} {s : ServerState env}
      {a : Except SubstrateError NodeHash} : isCultivationFamilyNodeType nodeType = true →
      (emitSubstrateEvent nodeType content).exec m.host.server = some (a, s) →
      Passage m (.family nodeType) (withServer m s)
  | saveWithin {m : Tropism.Machine env rt} {l : Ledger env.blake3} : m.disk.nodes <+: l.nodes →
      l.nodes <+: m.host.server.nodes → Passage m .saveWithin { m with disk := l }

/-- No step but a restart adds to the family, or touches the memo. -/
theorem step_memo {m m' : Tropism.Machine env rt} {e : Tropism.Event} (h : Tropism.Step m e m')
    (he : ∀ files, e ≠ .restart files) : Aside memo m.host.server m'.host.server := by
  cases h with
  | request hg hp hq =>
    rename_i q a t
    by_cases hadv : q = .advance
    · subst hadv
      exact within_bind (Tropism.spares_advance sedentary_memo (by decide) fun _ _ => rfl)
        (fun _ => within_pure) _ _ _ hq
    · exact Tropism.request_spares sedentary_memo heedless_memo (by decide) (fun _ _ => rfl) hadv
        _ _ _ hq
  | flush hq =>
    exact Tropism.spares_flush (by decide) (fun _ _ => rfl) (fun _ _ => rfl) _ _ _ hq
  | tick hg hq =>
    rw [Tropism.autonomousTick_eq] at hq
    exact within_bind (Tropism.spares_tick sedentary_memo (by decide) (fun _ _ => rfl)
      fun _ _ => rfl) (fun _ => within_pure) _ _ _ hq
  | other ha => exact .of_narrower ⟨by decide, fun s s' hs => by
      simp only [Tropism.vital, Prod.mk.injEq] at hs
      exact hs.2.2.2.2.2.2⟩ ha
  | save => exact Std.Refl.refl _
  | workerExit => exact Std.Refl.refl _
  | hello _ _ _ => exact .of_ledger rfl rfl
  | restart => exact absurd rfl (he _)

theorem step_honest {m m' : Tropism.Machine env rt} {e : Tropism.Event}
    (h : Tropism.Step m e m') (he : ∀ files, e ≠ .restart files) :
    Honest m.host.server m'.host.server := .of_aside (step_memo h he)

/-- What is on disk is a part of what is running. -/
structure Sound (m : Tropism.Machine env rt) : Prop where
  disk : Grows (Warranted env) [] m.disk.nodes
  live : Grows (Warranted env) [] m.host.server.nodes
  cultivated : Cultivated m.host.server

theorem sound_boot {files : BootFiles} {l : Ledger env.blake3}
    (h : Grows (Warranted env) [] l.nodes) : Sound (.boot files l : Tropism.Machine env rt) :=
  ⟨h, h, rfl⟩

theorem Sound.of_honest {m m' : Tropism.Machine env rt} (h : Sound m) (hd : m'.disk = m.disk)
    (hh : Honest m.host.server m'.host.server) : Sound m' :=
  ⟨hd ▸ h.disk, h.live.trans hh.log, hh.cultivated h.cultivated⟩

theorem step_disk {m m' : Tropism.Machine env rt} {e : Tropism.Event} (h : Tropism.Step m e m') :
    m'.disk = m.disk ∨ m'.disk = m.host.server.ledger ∧ m'.host = m.host := by
  cases h with
  | save => exact .inr ⟨rfl, rfl⟩
  | request _ _ _ => exact .inl rfl
  | flush _ => exact .inl rfl
  | tick _ _ => exact .inl rfl
  | other _ => exact .inl rfl
  | workerExit => exact .inl rfl
  | hello _ _ _ => exact .inl rfl
  | restart => exact .inl rfl

theorem Sound.passage {m m' : Tropism.Machine env rt} {a : Affair} (h : Sound m)
    (hp : Passage m a m') (ha : ∀ t, a ≠ .family t) : Sound m' := by
  cases hp with
  | event hs =>
    rename_i e
    by_cases he : ∃ files, e = .restart files
    · obtain ⟨files, rfl⟩ := he
      cases hs
      exact sound_boot h.disk
    · have hh := step_honest hs fun files hf => he ⟨files, hf⟩
      rcases step_disk hs with hd | ⟨hd, hsame⟩
      · exact h.of_honest hd hh
      · refine ⟨?_, h.live.trans hh.log, hh.cultivated h.cultivated⟩
        rw [hd]
        exact h.live
  | acceptSuccession he => exact h.of_honest rfl (honest_acceptSuccession _ _ _ he)
  | acceptBetRetiredProposal he => exact h.of_honest rfl (honest_acceptBetRetired _ _ _ he)
  | family => exact absurd rfl (ha _)
  | saveWithin hdisk hlive =>
    exact ⟨h.live.of_prefix List.nil_prefix hlive, h.live, h.cultivated⟩

/-- Of a warranted log only an archive or a normal state can be read. -/
theorem cultivation_of_warranted {ns : List DagNode} (h : Grows (Warranted env) [] ns) :
    ns.foldl cultivationEvent .normal = .normal ∨ ns.foldl cultivationEvent .normal = .archived ∧
      ∃ p ∈ ns, p.nodeType = betRetiredProposalType := by
  induction h with
  | refl => exact .inl rfl
  | @snoc ns n _ hn ih =>
    rw [List.foldl_append, List.foldl_cons, List.foldl_nil]
    have hkept : ∀ p, p ∈ ns ∧ p.nodeType = betRetiredProposalType →
        p ∈ ns ++ [n] ∧ p.nodeType = betRetiredProposalType :=
      fun p hp => ⟨List.mem_append_left _ hp.1, hp.2⟩
    cases hn with
    | other hf =>
      rw [cultivationEvent_of_not_family hf]
      exact ih.imp_right fun ⟨hs, p, hp⟩ => ⟨hs, p, hkept p hp⟩
    | succession _ ht _ =>
      have hstart : startsWith successionCompletedPrefix n.nodeType := ht ▸ startsWith_append
      have hnot : ∀ q ∈ [betRetiredPrefix, cultivationRecoveredPrefix, cultivationOrphanedPrefix],
          ¬ startsWith q n.nodeType := fun q hq => not_startsWith hstart (by
        revert q
        decide)
      rw [cultivationEvent, if_neg (hnot _ (by simp)), if_neg (hnot _ (by simp)),
        if_neg (hnot _ (by simp)), if_pos hstart]
      split
      · rename_i harch
        rcases ih with ih | ⟨-, p, hp⟩
        · rw [ih] at harch
          cases harch
        · exact .inr ⟨rfl, p, hkept p hp⟩
      · exact .inl rfl
    | retirement hp hpt _ ht _ =>
      rw [cultivationEvent, if_pos (ht ▸ startsWith_append)]
      exact .inr ⟨rfl, _, List.mem_append_left _ hp, hpt⟩

/-- In every run that begins with an empty log, saves and restarts anywhere, whatever the log says
of the succession was warranted by what stood before it; the memo is what the log says; and it says
normal, unless the log holds a proposal to retire. -/
theorem cultivation_warranted {files : BootFiles} {m : Tropism.Machine env rt}
    {as : List Affair} (h : Path Passage (.boot files .new) as m)
    (hfamily : ∀ t, .family t ∉ as) :
    (∀ pre n post, m.host.server.nodes = pre ++ n :: post → Warranted env pre n) ∧
    m.host.server.cultivationState = currentCultivationState m.host.server ∧
    (m.host.server.cultivationState = .normal ∨ m.host.server.cultivationState = .archived ∧
      ∃ p ∈ m.host.server.nodes, p.nodeType = betRetiredProposalType) := by
  have hsound : Sound m := by
    have hboot : Sound (Tropism.Machine.boot files .new : Tropism.Machine env rt) :=
      sound_boot .refl
    refine h.keeps_labels (I := fun _ m => Sound m) (fun ys a zs u v he _ hs _ hu => ?_) hboot
    refine hu.passage hs fun t ht => hfamily t ?_
    rw [he, ht]
    simp
  obtain ⟨es, hes, hplaces⟩ := hsound.live.exists_append
  have hcult : m.host.server.cultivationState = currentCultivationState m.host.server :=
    hsound.cultivated
  refine ⟨fun pre n post he => ?_, hcult, ?_⟩
  · have hw := hplaces pre n post (by rw [← he, hes]; rfl)
    exact hw
  · rw [hcult]
    exact cultivation_of_warranted hsound.live

/-! ### The archive -/

def cycleEvents (ns : List DagNode) : List DagNode := ns.filter (·.nodeType = cycleAdvancedType)

/-- No cycle is advanced. -/
structure Frozen (s s' : ServerState env) : Prop where
  log : ∃ ns, s'.nodes = s.nodes ++ ns ∧ ∀ n ∈ ns, n.nodeType ≠ cycleAdvancedType
  cycleCounter : s'.cycleCounter = s.cycleCounter
  cultivated : Cultivated s → Cultivated s'

theorem Frozen.refl (s : ServerState env) : Frozen s s := ⟨⟨[], by simp⟩, rfl, id⟩

theorem Frozen.cycleEvents_eq {s s' : ServerState env} (h : Frozen s s') :
    cycleEvents s'.nodes = cycleEvents s.nodes := by
  obtain ⟨ns, hn, hns⟩ := h.log
  have hnil : cycleEvents ns = [] := List.filter_eq_nil_iff.2 fun n hm => by simpa using hns n hm
  rw [hn, cycleEvents, List.filter_append]
  exact (congrArg _ hnil).trans (List.append_nil _)

/-- The memo, the counter, and the events that they are made of. -/
def halted : Watch where
  texts := cultivationTexts ++ [cycleAdvancedType]
  View := UInt64 × CultivationState
  see s := (s.cycleCounter, s.cultivationState)
  uncommon := by decide
  cultivation := by decide

theorem sedentary_halted : halted.Sedentary := ⟨by decide, fun _ _ => rfl⟩

theorem heedless_halted : halted.Heedless := ⟨by decide, fun _ _ => rfl, fun _ _ => rfl⟩

theorem memo_narrower : memo.Narrower halted := ⟨by decide, fun s s' h => by
  simp only [halted, Prod.mk.injEq] at h
  exact h.2⟩

theorem Frozen.of_aside {s s' : ServerState env} (h : Aside halted s s') : Frozen s s' := by
  obtain ⟨ns, hn, hns⟩ := h.nodes
  have hsee := h.see
  simp only [halted, Tropism.settings, Prod.mk.injEq] at hsee
  refine ⟨⟨ns, hn, fun n hm ht => hns n hm ?_⟩, hsee.1, (Honest.of_aside (h.of_narrower
    memo_narrower)).cultivated⟩
  exact ⟨cycleAdvancedType, by simp [halted], by simp [startsWith, ht]⟩

/-- An event of another type is emitted. -/
theorem Frozen.of_emit {nodeType : String} {content : Bytes} {s s' : ServerState env}
    {r : Except SubstrateError NodeHash} (hne : nodeType ≠ cycleAdvancedType)
    (h : (emitSubstrateEvent nodeType content).exec s = some (r, s')) : Frozen s s' := by
  have hlays := lays_emitSubstrateEvent (P := fun _ n => n.nodeType ≠ cycleAdvancedType)
    (fun _ _ ht _ _ _ => ht ▸ hne) _ _ _ h
  obtain ⟨ns, hn, hns⟩ := hlays.log.exists_forall
  refine ⟨⟨ns, hn, fun n hm => ?_⟩, hlays.cycleCounter, hlays.cultivated⟩
  obtain ⟨_, -, hne'⟩ := hns n hm
  exact hne'

theorem ne_cycleAdvanced_of_family {nodeType : String}
    (h : isCultivationFamilyNodeType nodeType = true) : nodeType ≠ cycleAdvancedType := by
  rintro rfl
  exact absurd h (by decide)

theorem family_of_startsWith {p nodeType : String} (hp : p ∈ cultivationTexts)
    (h : startsWith p nodeType) : isCultivationFamilyNodeType nodeType = true :=
  isCultivationFamily_iff.2 ⟨p, hp, h⟩

theorem frozen_acceptSuccession {request : Message} {s s' : ServerState env}
    {a : Except SubstrateError (Option Message)}
    (h : (handleAcceptSuccession request).exec s = some (a, s')) : Frozen s s' := by
  rcases acceptSuccession_cases h with h | ⟨r, -, -, x, hx⟩
  · exact .of_aside (h halted)
  · exact .of_emit (ne_cycleAdvanced_of_family (family_of_startsWith
      (p := successionCompletedPrefix) (by decide) startsWith_append)) hx

theorem frozen_acceptBetRetired {anchorNow : Option Int64} {request : Message}
    {s s' : ServerState env} {a : Except SubstrateError (Option Message)}
    (h : (handleAcceptBetRetiredProposal anchorNow request).exec s = some (a, s')) :
    Frozen s s' := by
  rcases acceptBetRetired_cases h with ⟨rfl, -⟩ | ⟨p, -, reason, -, -, x, hx, -⟩
  · exact .refl s'
  · exact .of_emit (ne_cycleAdvanced_of_family (family_of_startsWith
      (p := betRetiredPrefix) (by decide) startsWith_append)) hx

/-- While it is archived no step but a restart advances a cycle: a request to is refused, a tick
passes it over, and a flush forgets what is pending. -/
theorem step_frozen {m m' : Tropism.Machine env rt} {e : Tropism.Event} (h : Tropism.Step m e m')
    (he : ∀ files, e ≠ .restart files) (ha : isArchived m.host.server = true) :
    Frozen m.host.server m'.host.server := by
  cases h with
  | request hg hp hq =>
    rename_i q a t
    by_cases hadv : q = .advance
    · subst hadv
      rcases Prog.exec_bind_eq_some.1 hq with ⟨e, h1, -⟩ | ⟨_, u, h1, h2⟩
      · rw [Tropism.advance, Prog.exec_get_bind, if_pos ha] at h1
        cases h1
        exact .refl _
      · rw [Tropism.advance, Prog.exec_get_bind, if_pos ha] at h1
        cases h1
    · exact .of_aside (Tropism.request_spares sedentary_halted heedless_halted (by decide)
        (fun _ _ => rfl) hadv _ _ _ hq)
  | flush hq =>
    rw [Tropism.flushPendingSelfDriven, Prog.exec_get_bind, if_pos (.inr ha)] at hq
    have hforgets : Within (Tropism.Spares halted) (Tropism.onServer (modify fun s =>
        { s with pendingSelfDrivenNoopCycles := 0 }) : Tropism.Op env rt PUnit) :=
      Tropism.spares_modify (fun _ => rfl) fun _ => rfl
    exact .of_aside (hforgets _ _ _ hq)
  | tick hg hq =>
    rw [Tropism.autonomousTick, Prog.exec_get_bind, if_neg (by simp [ha])] at hq
    exact .of_aside (sedentary_halted.checkMigrationWindow _ _ _ hq)
  | other ho => exact .of_aside (.of_narrower ⟨by decide, fun s s' hs => by
      simp only [Tropism.vital, Prod.mk.injEq] at hs
      simp only [halted, Prod.mk.injEq]
      exact ⟨hs.1.1, hs.2.2.2.2.2.2⟩⟩ ho)
  | save => exact .refl _
  | workerExit => exact .refl _
  | hello _ _ _ => exact .of_aside (.of_ledger rfl rfl)
  | restart => exact absurd rfl (he _)

/-- The log says that the substrate has retired. -/
def Retired (ns : List DagNode) : Prop := ∃ n ∈ ns, startsWith betRetiredPrefix n.nodeType

theorem Retired.archived {ns : List DagNode} (h : Retired ns) {c : CultivationState} :
    ns.foldl cultivationEvent c = .archived := by
  have hkept : ∀ ms : List DagNode, ms.foldl cultivationEvent .archived = .archived := by
    intro ms
    induction ms with
    | nil => rfl
    | cons n ms ih =>
      have hn : cultivationEvent .archived n = .archived := by
        unfold cultivationEvent
        split
        · rfl
        · rfl
      rw [List.foldl_cons, hn, ih]
  obtain ⟨n, hn, hs⟩ := h
  obtain ⟨xs, ys, rfl⟩ := List.append_of_mem hn
  rw [List.foldl_append, List.foldl_cons, cultivationEvent, if_pos hs]
  exact hkept ys

/-- Retired, on disk too, with these advances of the cycle and no others. -/
structure AtRest (cycles : List DagNode) (m : Tropism.Machine env rt) : Prop where
  disk : Retired m.disk.nodes
  live : Retired m.host.server.nodes
  cultivated : Cultivated m.host.server
  diskCycles : cycleEvents m.disk.nodes = cycles
  liveCycles : cycleEvents m.host.server.nodes = cycles

theorem AtRest.isArchived {cycles : List DagNode} {m : Tropism.Machine env rt}
    (h : AtRest cycles m) : isArchived m.host.server = true := by
  have hcult : m.host.server.cultivationState = currentCultivationState m.host.server :=
    h.cultivated
  exact decide_eq_true (hcult.trans h.live.archived)

theorem Retired.mono {ns ms : List DagNode} (h : Retired ns) (hp : ns <+: ms) : Retired ms := by
  obtain ⟨n, hn, hs⟩ := h
  exact ⟨n, hp.subset hn, hs⟩

theorem AtRest.of_frozen {cycles : List DagNode} {m m' : Tropism.Machine env rt}
    (h : AtRest cycles m) (hd : m'.disk = m.disk)
    (hf : Frozen m.host.server m'.host.server) : AtRest cycles m' := by
  obtain ⟨ns, hn, -⟩ := hf.log
  refine ⟨hd ▸ h.disk, h.live.mono (hn ▸ List.prefix_append _ _), hf.cultivated h.cultivated,
    hd ▸ h.diskCycles, hf.cycleEvents_eq.trans h.liveCycles⟩

/-- What a passage other than a restart does to a substrate at rest. -/
theorem passage_frozen {m m' : Tropism.Machine env rt} {a : Affair}
    (ha : isArchived m.host.server = true) (hp : Passage m a m')
    (hr : ∀ files, a ≠ .event (.restart files)) : Frozen m.host.server m'.host.server := by
  cases hp with
  | event hs => exact step_frozen hs (fun files hf => hr files (by rw [hf])) ha
  | acceptSuccession he => exact frozen_acceptSuccession he
  | acceptBetRetiredProposal he => exact frozen_acceptBetRetired he
  | family hf he => exact .of_emit (ne_cycleAdvanced_of_family hf) he
  | saveWithin _ _ => exact .refl _

theorem AtRest.passage {cycles : List DagNode} {m m' : Tropism.Machine env rt} {a : Affair}
    (h : AtRest cycles m) (hp : Passage m a m') : AtRest cycles m' := by
  by_cases hr : ∃ files, a = .event (.restart files)
  · obtain ⟨files, rfl⟩ := hr
    cases hp with
    | event hs =>
      cases hs
      exact ⟨h.disk, h.disk, rfl, h.diskCycles, h.diskCycles⟩
  · have hf := passage_frozen h.isArchived hp fun files ha => hr ⟨files, ha⟩
    cases hp with
    | event hs =>
      rcases step_disk hs with hd | ⟨hd, hsame⟩
      · exact h.of_frozen hd hf
      · rw [hsame] at hf
        refine ⟨hd ▸ h.live, hsame ▸ h.live, hsame ▸ h.cultivated, hd ▸ h.liveCycles,
          hsame ▸ h.liveCycles⟩
    | acceptSuccession he => exact h.of_frozen rfl hf
    | acceptBetRetiredProposal he => exact h.of_frozen rfl hf
    | family _ he => exact h.of_frozen rfl hf
    | saveWithin hdisk hlive =>
      refine ⟨h.disk.mono hdisk, h.live, h.cultivated, ?_, h.liveCycles⟩
      have h1 := (hdisk.filter (·.nodeType = cycleAdvancedType)).length_le
      have h2 := hlive.filter (·.nodeType = cycleAdvancedType)
      have h3 := h.diskCycles.trans h.liveCycles.symm
      refine (h2.eq_of_length_le ?_).trans h.liveCycles
      exact (congrArg List.length h3).symm.le.trans h1

/-- A retirement that has been accepted, and the save that comes before its answer. -/
structure Retires (m m' : Tropism.Machine env rt) : Prop where
  accepted : ∃ anchorNow request answer, (handleAcceptBetRetiredProposal anchorNow request).exec
    m.host.server = some (.ok answer, m'.host.server)
  saved : m'.disk = m'.host.server.ledger

theorem emit_ok {nodeType : String} {content : Bytes} {s s' : ServerState env} {hash : NodeHash}
    (h : (emitSubstrateEvent nodeType content).exec s = some (.ok hash, s')) :
    (∃ n, s'.nodes = s.nodes ++ [n] ∧ n.nodeType = nodeType) ∧
      (isCultivationFamilyNodeType nodeType = true → Cultivated s') := by
  rw [emitSubstrateEvent, Prog.exec_get_bind] at h
  rcases Prog.exec_bind_eq_some.1 h with ⟨e, -, hx⟩ | ⟨_, t, h1, h2⟩
  · cases hx
  cases h2
  have hn : (t.refreshCultivation nodeType).nodes = t.nodes :=
    congrArg Ledger.nodes t.refreshCultivation_ledger
  refine ⟨?_, fun hf => ?_⟩
  · rcases insertNode_tip_cases h1 (List.append_nil _).symm with ⟨e, hx, -⟩ | ⟨-, hadd, -⟩
    · cases hx
    · exact ⟨_, hn.trans hadd, rfl⟩
  · show (t.refreshCultivation nodeType).cultivationState = _
    rw [currentCultivationState_congr hn, ServerState.refreshCultivation, if_pos hf]

theorem Retires.atRest {m m' : Tropism.Machine env rt} (h : Retires m m') :
    AtRest (cycleEvents m'.host.server.nodes) m' := by
  obtain ⟨⟨anchorNow, request, answer, he⟩, hsaved⟩ := h
  rcases acceptBetRetired_cases he with ⟨-, e, hx⟩ | ⟨p, -, reason, -, -, x, hx, hok⟩
  · cases hx
  obtain ⟨hash, rfl⟩ := hok rfl
  obtain ⟨⟨n, hn, ht⟩, hcult⟩ := emit_ok hx
  have hstart : startsWith betRetiredPrefix n.nodeType := ht ▸ startsWith_append
  have hretired : Retired m'.host.server.nodes := ⟨n, by rw [hn]; simp, hstart⟩
  exact ⟨hsaved ▸ hretired, hretired, hcult (family_of_startsWith (by decide) startsWith_append),
    hsaved ▸ rfl, rfl⟩

/-- Whatever happens after a retirement has been answered, crashes and restarts from what is on
disk included: the substrate is archived, the advances of the cycle in its log are those of then,
and nothing but a restart moves the counter. -/
theorem archive_is_terminal {m m' u : Tropism.Machine env rt} {as : List Affair}
    (h : Retires m m') (hrun : Path Passage m' as u) :
    isArchived u.host.server = true ∧
    cycleEvents u.host.server.nodes = cycleEvents m'.host.server.nodes ∧
    ∀ a v, Passage u a v → (∀ files, a ≠ .event (.restart files)) →
      v.host.server.cycleCounter = u.host.server.cycleCounter := by
  have hrest : AtRest (cycleEvents m'.host.server.nodes) u :=
    hrun.keeps (fun _ _ _ hp hs => hs.passage hp) h.atRest
  refine ⟨hrest.isArchived, hrest.liveCycles, fun a v hp hr => ?_⟩
  exact (passage_frozen hrest.isArchived hp hr).cycleCounter

/-! ### A succession and a retirement -/

def successionRequest (sessions : UInt64) : Message :=
  ⟨"accept_succession", 1, OrdMap.ofList utf8 [("successor_pubkey", hashValue (.replicate 1)),
    ("prior_cultivator_pubkey", hashValue (.replicate 2)),
    ("anchor_timestamp_unix_ns", .timestamp 0),
    ("catechumenate_session_count", .uint sessions)]⟩

theorem cultivation_warranted_fifty : ∃ m : Tropism.Machine smallEnv Tropism.wholeNumbers,
    m.host.server.nodes.length = 1 ∧
    (∀ pre n post, m.host.server.nodes = pre ++ n :: post → Warranted smallEnv pre n) ∧
    m.host.server.cultivationState = currentCultivationState m.host.server ∧
    (m.host.server.cultivationState = .normal ∨ m.host.server.cultivationState = .archived ∧
      ∃ p ∈ m.host.server.nodes, p.nodeType = betRetiredProposalType) := by
  have hone : ((handleAcceptSuccession (successionRequest 50)).exec
      (bootState Tropism.noFiles .new : ServerState smallEnv)).any
      (·.2.nodes.length = 1) = true := by decide +kernel
  obtain ⟨⟨a, s⟩, he, hs⟩ := (Option.any_eq_true _ _).1 hone
  have hrun : Path Passage (Tropism.Machine.boot Tropism.noFiles .new)
      [.acceptSuccession (successionRequest 50)]
      (withServer (.boot Tropism.noFiles .new) s : Tropism.Machine smallEnv
        Tropism.wholeNumbers) := .cons (.acceptSuccession he) .nil
  exact ⟨_, of_decide_eq_true hs, cultivation_warranted hrun (by simp)⟩

def proposalLedger : Ledger smallEnv.blake3 :=
  Ledger.new.push ⟨[], betRetiredProposalType, 0, cbEncode [("reason", .string "bet_falsified")]⟩

def retirementRequest : Message :=
  ⟨"accept_bet_retired_proposal", 1, OrdMap.ofList utf8
    [("proposal_hash", hashValue (proposalLedger.tip.getD (.replicate 0)))]⟩

/-- A substrate retires, and is started again. -/
theorem archive_is_terminal_restarted :
    ∃ m m' u : Tropism.Machine smallEnv Tropism.wholeNumbers, Retires m m' ∧
      Path Passage m' [.event (.restart Tropism.noFiles)] u ∧
      isArchived u.host.server = true ∧
      cycleEvents u.host.server.nodes = cycleEvents m'.host.server.nodes ∧
      ∀ a v, Passage u a v → (∀ files, a ≠ .event (.restart files)) →
        v.host.server.cycleCounter = u.host.server.cycleCounter := by
  have hok : ((handleAcceptBetRetiredProposal none retirementRequest).exec
      (bootState Tropism.noFiles proposalLedger)).any (·.1.isOk) = true := by decide +kernel
  obtain ⟨⟨a, s⟩, he, ha⟩ := (Option.any_eq_true _ _).1 hok
  obtain ⟨answer, rfl⟩ : ∃ answer, a = .ok answer := by
    cases a with
    | ok answer => exact ⟨answer, rfl⟩
    | error e => cases ha
  have hretires : Retires (.boot Tropism.noFiles proposalLedger)
      (⟨⟨s, none⟩, s.ledger⟩ : Tropism.Machine smallEnv Tropism.wholeNumbers) :=
    ⟨⟨none, retirementRequest, answer, he⟩, rfl⟩
  have hrestart : Tropism.Step (⟨⟨s, none⟩, s.ledger⟩ :
      Tropism.Machine smallEnv Tropism.wholeNumbers) (.restart Tropism.noFiles)
      (.boot Tropism.noFiles s.ledger) := .restart
  have hrun := Path.singleton_iff.2 (Passage.event hrestart)
  exact ⟨_, _, _, hretires, hrun, archive_is_terminal hretires hrun⟩

end Myco.Cultivation
