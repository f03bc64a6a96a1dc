import Myco.Consensus.FloorLog

/-!
# The live peers and their pins in the log

A poll, a tick and a connection out write the pin of every peer that they admit. A link to the parent
does so unless the peer that answers is not the parent: then it fails, and the peer stays. A poll or
a tick whose accepting fails leaves the connections that it had accepted. As long as no step does
either, every peer is pinned in the log and a failure changes no connection (`live_pinned_iff`).
-/

namespace Myco.Consensus

open Myco.Lib Myco.Canonical Myco.Schema Myco.Substrate Myco.Federation

variable {env : Env}

/-! ### Pins in the log -/

/-- The node pins this peer, with this key or without one. -/
def LogsPin (a : Hash32 × Option Hash32) (n : DagNode) : Prop :=
  n.nodeType = federationPeerPinnedNodeType a.1 ∧ ∃ m, decodeMap? n.content = some m ∧
    OrdMap.get "peer_substrate_id" m = some (hashValue a.1) ∧
    OrdMap.get "signer_pubkey" m = a.2.map hashValue

/-- Every established peer is pinned in the log, by its id and with its key. -/
def LivePinned (s : ServerState env) : Prop :=
  ∀ p ∈ s.federation.peers, p.state = .established →
    ∃ id, p.peerSubstrateId = some id ∧ ∃ n ∈ s.nodes, LogsPin (id, p.pinnedSignerPubkey) n

theorem livePinned_iff {s : ServerState env} (hs : ∀ p ∈ s.federation.peers, p.Sane (ownId s)) :
    LivePinned s ↔ ∀ a ∈ s.federation.pinnedKeys, ∃ n ∈ s.nodes, LogsPin a n := by
  constructor
  · intro h a ha
    obtain ⟨p, hp, hpa⟩ := List.mem_filterMap.1 ha
    obtain ⟨id, hid, rfl⟩ := Option.map_eq_some_iff.1 hpa
    rcases (hs p hp).state with ⟨hstate, -⟩ | ⟨-, hnone⟩
    · obtain ⟨id', hid', hlogged⟩ := h p hp hstate
      obtain rfl : id' = id := Option.some.inj (hid'.symm.trans hid)
      exact hlogged
    · rw [hid] at hnone
      cases hnone
  · intro h p hp hstate
    rcases (hs p hp).state with ⟨-, hsome⟩ | ⟨hwait, -⟩
    · obtain ⟨id, hid⟩ := Option.isSome_iff_exists.1 hsome
      refine ⟨id, hid, h _ (List.mem_filterMap.2 ⟨p, hp, ?_⟩)⟩
      rw [PeerConnection.pinnedKey, hid]
      rfl
    · rw [hstate] at hwait
      cases hwait

theorem logsPin_of_encode {id : Hash32} {addr : String} {t : Int64} {key : Option Hash32}
    {n : DagNode} (hn : n.nodeType = federationPeerPinnedNodeType id)
    (hc : n.content = encodeFederationPeerPinned id addr t key)
    (hmem : n.content.length ≤ isizeMax) : LogsPin (id, key) n := by
  have hwf : ∀ e ∈ [("peer_substrate_id", hashValue id), ("remote_addr", .string addr),
      ("first_pinned_unix_ns", .timestamp t)] ++ entryIf "signer_pubkey" hashValue key,
      e.2.WF := by
    intro e he
    rw [List.mem_append, mem_entryIf] at he
    rcases he with he | ⟨pk, -, rfl⟩
    · revert e
      simp [hashValue, Value.WF]
    · trivial
  rw [hc, encodeFederationPeerPinned] at hmem
  refine ⟨hn, _, by rw [hc, encodeFederationPeerPinned, decodeMap?_cbEncode hmem hwf], ?_, ?_⟩
  · refine get_mapOf.trans ?_
    simp [get_entryIf, OrdMap.get_append, OrdMap.get_cons]
  · refine get_mapOf.trans ?_
    cases key <;> simp [get_entryIf, OrdMap.get_append, OrdMap.get_cons]

/-! ### What leaves a pin -/

/-- Afterwards the log pins the peer. -/
def LeavesPin (a : Hash32 × Option Hash32) (_ t : ServerState env) : Prop :=
  ∃ n ∈ t.nodes, LogsPin a n

abbrev Grows : ServerState env → ServerState env → Prop := Adds fun _ => True

section

variable {α β : Type} {a : Hash32 × Option Hash32}

theorem grows_of_federal {m : Handler env α} (h : Within (Barring (Adds Federal)) m) :
    Within (Barring Grows) m :=
  h.mono fun _ _ hb => hb.imp fun hadds => hadds.mono fun _ _ => trivial

theorem LeavesPin.grows {s t u : ServerState env} (h : LeavesPin a s t) (hg : Grows t u) :
    LeavesPin a s u := by
  obtain ⟨n, hn, hlogs⟩ := h
  obtain ⟨ns, hns, -⟩ := hg.nodes
  exact ⟨n, by rw [hns]; exact List.mem_append_left _ hn, hlogs⟩

theorem leavesPin_bind {m : Handler env α} {f : α → Handler env β}
    (hm : Within (Barring (LeavesPin a)) m) (hf : ∀ x, Within (Barring Grows) (f x)) :
    Within (Barring (LeavesPin a)) (m >>= f) := by
  intro s r t h
  rcases Prog.exec_bind_eq_some.1 h with ⟨e, h1, -⟩ | ⟨x, u, h1, h2⟩
  · exact hm s _ t h1
  · exact (hm s _ u h1).trans (hf x u r t h2) LeavesPin.grows

theorem leavesPin_after {m : Handler env α} {f : α → Handler env β} (hm : Succeeds m)
    (hgrows : Within (Barring Grows) m) (hf : ∀ x, Within (Barring (LeavesPin a)) (f x)) :
    Within (Barring (LeavesPin a)) (m >>= f) := by
  intro s r t h
  obtain ⟨x, u, h1, h2⟩ := hm.exec_bind h
  exact (hgrows s _ u h1).trans (hf x u r t h2) fun _ hleaves => hleaves

variable {id : Hash32} {addr : String} {now : Int64} {key : Option Hash32} {verified : Bool}

theorem leavesPin_emitFederationPeerPinned : Within (Barring (LeavesPin (id, key)))
    (emitFederationPeerPinned id addr now key : Handler env NodeHash) := by
  intro s r t h
  refine (emitSubstrateEvent_tip (ne_of_startsWith_federation startsWith_peerPinned) h).imp
    fun happends => ?_
  have hn := happends.nodes
  exact ⟨_, by rw [hn]; exact List.mem_append_right _ (List.mem_singleton.2 rfl),
    logsPin_of_encode rfl rfl happends.content⟩

theorem leavesPin_emitPinned : Within (Barring (LeavesPin (id, key)))
    (emitPinned id addr now key verified : Handler env PUnit) :=
  leavesPin_bind (within_attempt leavesPin_emitFederationPeerPinned) fun _ =>
    grows_of_federal federal_legacyUnless

theorem leavesPin_emitPollEvent {texts : PollTexts} {own : Hash32} {e : PollPeerEvent}
    (h : e.admission = some a) :
    Within (Barring (LeavesPin a)) (emitPollEvent texts own now e : Handler env PUnit) := by
  cases e with
  | pinned id addr tip key verified =>
    cases h
    exact leavesPin_emitPinned
  | _ => cases h

theorem leavesPin_emitPollEvents {texts : PollTexts} {own : Hash32} {events : List PollPeerEvent}
    (h : a ∈ admissions events) : Within (Barring (LeavesPin a))
      (events.forM (emitPollEvent texts own now) : Handler env PUnit) := by
  induction events with
  | nil => cases h
  | cons e es ih =>
    obtain ⟨e', he', ha⟩ := List.mem_filterMap.1 h
    rcases List.mem_cons.1 he' with rfl | he'
    · exact leavesPin_bind (leavesPin_emitPollEvent ha) fun _ =>
        grows_of_federal (within_forM fun _ _ => federal_emitPollEvent)
    · exact leavesPin_after succeeds_emitPollEvent (grows_of_federal federal_emitPollEvent)
        fun _ => ih (List.mem_filterMap.2 ⟨e', he', ha⟩)

theorem leavesPin_connectOutcome {o : ConnectPeerOutcome} (h : o.admission = some a) :
    Within (Barring (LeavesPin a)) (connectOutcome o : Handler env _) := by
  cases o with
  | pinned id addr tip key v =>
    cases h
    refine leavesPin_after succeeds_readClock (grows_of_federal barring_readClock) fun _ =>
      leavesPin_bind leavesPin_emitFederationPeerPinned fun _ => ?_
    split
    · exact within_bind (grows_of_federal
        (within_attempt federal_emitFederationLegacyPeerPinned)) fun _ => within_pure
    · exact within_pure
  | _ => cases h

theorem leavesPin_linkOutcome {parent : Hash32} {o : ConnectPeerOutcome}
    (h : o.admission = some a) (hparent : a.1 = parent) :
    Within (Barring (LeavesPin a)) (linkOutcome parent o : Handler env _) := by
  cases o with
  | pinned id addr tip key v =>
    cases h
    unfold linkOutcome
    dsimp only
    rw [if_neg (not_not.2 hparent)]
    exact leavesPin_after succeeds_readClock (grows_of_federal barring_readClock) fun _ =>
      leavesPin_bind leavesPin_emitPinned fun _ => grows_of_federal
        (within_bind (federal_emitSubstrateEvent (by decide)) fun _ => within_pure)
  | _ => cases h

end

/-! ### What the calls do -/

section

variable {s t : ServerState env} {a : Hash32 × Option Hash32}

theorem grows_emitConsensusFloorCrossing {prior : Nat} : Within (Barring Grows)
    (emitConsensusFloorCrossingIfNeeded prior : Handler env PUnit) :=
  barring_emitConsensusFloorCrossing

theorem poll_pins {input : PollInput} {request : Message}
    {r : Except SubstrateError (Option Message)}
    (h : (handleFederationPoll input request).exec s = some (r, t)) (ht : ¬ Collided t)
    (ha : a ∈ (pollChange s input).pinned) : LeavesPin a s t := by
  rw [handleFederationPoll, Prog.exec_get_bind, Prog.exec_bind, exec_servePeers,
    Option.bind_some] at h
  unfold pollChange at ha
  dsimp only at ha
  generalize (serve s input).1 = served at h ha
  cases served with
  | error e => cases ha
  | ok p =>
    have hleaves : Barring (LeavesPin a) (setFederation (serve s input).2 s) t :=
      (leavesPin_after succeeds_readClock (grows_of_federal barring_readClock) fun _ =>
        leavesPin_bind (leavesPin_emitPollEvents ha) fun _ =>
          within_bind grows_emitConsensusFloorCrossing fun _ => within_bind within_get fun _ =>
            within_pure) _ _ _ h
    exact hleaves.holds ht

theorem tick_pins {input : PollInput} {r : Except SubstrateError PUnit}
    (h : (tickFederation input).exec s = some (r, t)) (ht : ¬ Collided t)
    (ha : a ∈ (tickChange s input).pinned) : LeavesPin a s t := by
  rw [tickFederation, Prog.exec_get_bind] at h
  unfold tickChange at ha
  split at h
  · rename_i hidle
    rw [if_pos hidle] at ha
    cases ha
  · rename_i hactive
    rw [if_neg hactive] at ha
    rw [Prog.exec_bind, exec_servePeers, Option.bind_some] at h
    unfold pollChange at ha
    dsimp only at ha
    generalize (serve s input).1 = served at h ha
    cases served with
    | error e => cases ha
    | ok p =>
      dsimp only at h
      split at h
      · rename_i hempty
        dsimp only at ha
        rw [List.isEmpty_iff.1 hempty] at ha
        cases ha
      · have hleaves : Barring (LeavesPin a) (setFederation (serve s input).2 s) t :=
          (leavesPin_after succeeds_readClock (grows_of_federal barring_readClock) fun _ =>
            leavesPin_emitPollEvents ha) _ _ _ h
        exact hleaves.holds ht

theorem connect_pins {dial : Dial} {request : Message} {r : Except SubstrateError (Option Message)}
    (h : (handleFederationConnectPeer dial request).exec s = some (r, t)) (ht : ¬ Collided t)
    (ha : a ∈ (connectChange s dial request).pinned) : LeavesPin a s t := by
  unfold handleFederationConnectPeer at h
  unfold connectChange names at ha
  split at h
  · rename_i haddr
    rw [haddr] at ha
    cases ha
  · rename_i haddr
    rw [haddr] at ha
    cases ha
  · rename_i addr hne haddr
    rw [haddr, Option.any_some, if_pos (by simpa using hne)] at ha
    unfold dialChange at ha
    dsimp only at ha
    rw [Prog.exec_get_bind, Prog.exec_bind, exec_connectPeer, Option.bind_some] at h
    generalize (s.federation.connectPeer env.signatures (ownId s) dial).1 = outcome at h ha
    cases outcome with
    | error e => cases ha
    | ok o =>
      have hleaves : Barring (LeavesPin a) (setFederation (dialChange s dial).federation s) t :=
        (leavesPin_bind (leavesPin_connectOutcome (Option.mem_toList.1 ha)) fun _ =>
          within_bind grows_emitConsensusFloorCrossing fun _ => within_pure) _ _ _ h
      exact hleaves.holds ht

theorem dialled_pins {dial : Dial} {o : ConnectPeerOutcome}
    (h : (s.federation.connectPeer env.signatures (ownId s) dial).1 = .ok o) :
    (dialChange s dial).pinned = o.admission.toList := by
  rw [dialChange, h]

theorem link_pins {dial : Dial} {request : Message} {r : Except SubstrateError (Option Message)}
    (h : (handleFederationLinkToParentFromHint dial request).exec s = some (r, t))
    (ht : ¬ Collided t) (ha : a ∈ (linkChange s dial).pinned) : LeavesPin a s t := by
  unfold linkChange at ha
  rcases link_cases h with ⟨hnone, -⟩ | ⟨parent, hparent, ⟨e, he, -⟩ | ⟨o, r', ho, hexec, -⟩⟩
  · rw [hnone] at ha
    cases ha
  · rw [hparent, dialChange, he] at ha
    cases ha
  · rw [hparent] at ha
    dsimp only at ha
    rw [dialled_pins ho] at ha
    obtain ⟨ha, hid⟩ := List.mem_filter.1 ha
    exact ((leavesPin_linkOutcome (Option.mem_toList.1 ha) (of_decide_eq_true hid)) _ _ _
      hexec).holds ht

/-! ### When they fail -/

/-- Accepting that fails leaves the connections that it has accepted. -/
theorem peers_of_acceptFails {input : PollInput} (h : acceptFails s input) :
    ∃ ps, (serve s input).2.peers = s.federation.peers ++ ps ∧
      ps.length = input.accepted.connections.length := by
  obtain ⟨-, -, hf⟩ := serve_of_acceptFails h
  rw [hf]
  unfold acceptFails at h
  rw [Bool.and_eq_true] at h
  obtain ⟨⟨l, hl⟩, e, he⟩ := h.imp Option.isSome_iff_exists.1 Option.isSome_iff_exists.1
  rw [FederationState.acceptPending, hl]
  dsimp only
  rw [he]
  exact ⟨_, rfl, List.length_map _⟩

theorem peers_eq_of_acceptFails {input : PollInput} (h : acceptFails s input) :
    (serve s input).2.peers = s.federation.peers ↔ input.accepted.connections = [] := by
  obtain ⟨ps, hps, hlen⟩ := peers_of_acceptFails h
  rw [hps, List.append_right_eq_self, ← List.length_eq_zero_iff, hlen, List.length_eq_zero_iff]

theorem sure_of_succeeds {α : Type} {m : Handler env α} {R : ServerState env → ServerState env → Prop}
    (hm : Succeeds m) (hb : Within (Barring R) m) : Sure m :=
  fun s r t h => (hb s r t h).imp fun _ => hm s r t h

theorem sure_emitConsensusFloorCrossing {prior : Nat} :
    Sure (emitConsensusFloorCrossingIfNeeded prior : Handler env PUnit) := by
  refine sure_bind sure_get fun s => ?_
  dsimp only
  split
  · exact sure_pure
  · split
    · exact sure_bind (sure_emitSubstrateEvent (by decide)) fun _ => sure_pure
    · exact sure_bind (sure_emitSubstrateEvent (by decide)) fun _ => sure_pure

theorem sure_emitPollEvents {texts : PollTexts} {own : Hash32} {now : Int64}
    {events : List PollPeerEvent} :
    Sure (events.forM (emitPollEvent texts own now) : Handler env PUnit) :=
  sure_of_succeeds (succeeds_forM fun _ _ => succeeds_emitPollEvent)
    (within_forM fun _ _ => federal_emitPollEvent)

theorem not_error_of_sure {α : Type} {m : Handler env α} {r : Except SubstrateError α}
    (hm : Sure m) (h : m.exec s = some (r, t)) (ht : ¬ Collided t) : ¬ ∃ e, r = .error e := by
  rintro ⟨e, rfl⟩
  obtain ⟨x, hx⟩ := (hm s _ t h).holds ht
  cases hx

theorem poll_fails_iff {input : PollInput} {request : Message}
    {r : Except SubstrateError (Option Message)}
    (h : (handleFederationPoll input request).exec s = some (r, t)) (ht : ¬ Collided t) :
    (∃ e, r = .error e) ↔ acceptFails s input := by
  rw [handleFederationPoll, Prog.exec_get_bind, Prog.exec_bind, exec_servePeers,
    Option.bind_some] at h
  by_cases hfails : acceptFails s input
  · obtain ⟨e, he, -⟩ := serve_of_acceptFails hfails
    rw [he] at h
    cases h
    exact iff_of_true ⟨e, rfl⟩ hfails
  · obtain ⟨p, hserved⟩ := serve_of_not_acceptFails hfails
    rw [hserved] at h
    refine iff_of_false (not_error_of_sure (sure_bind sure_readClock fun _ =>
      sure_bind sure_emitPollEvents fun _ => sure_bind sure_emitConsensusFloorCrossing fun _ =>
        sure_bind sure_get fun _ => sure_pure) h ht) hfails

theorem tick_fails_iff {input : PollInput} {r : Except SubstrateError PUnit}
    (h : (tickFederation input).exec s = some (r, t)) (ht : ¬ Collided t) :
    (∃ e, r = .error e) ↔ acceptFails s input := by
  rw [tickFederation, Prog.exec_get_bind] at h
  split at h
  · rename_i hidle
    cases h
    rw [Bool.and_eq_true, Option.isNone_iff_eq_none] at hidle
    simp [acceptFails, hidle.1]
  · rw [Prog.exec_bind, exec_servePeers, Option.bind_some] at h
    by_cases hfails : acceptFails s input
    · obtain ⟨e, he, -⟩ := serve_of_acceptFails hfails
      rw [he] at h
      cases h
      exact iff_of_true ⟨e, rfl⟩ hfails
    · obtain ⟨p, hserved⟩ := serve_of_not_acceptFails hfails
      rw [hserved] at h
      refine iff_of_false ?_ hfails
      dsimp only at h
      split at h
      · exact not_error_of_sure sure_pure h ht
      · exact not_error_of_sure (sure_bind sure_readClock fun _ => sure_emitPollEvents) h ht

/-- A connection out that fails has changed no connection. -/
theorem connect_error {dial : Dial} {request : Message} {e : SubstrateError}
    (h : (handleFederationConnectPeer dial request).exec s = some (.error e, t))
    (ht : ¬ Collided t) : t.federation = s.federation := by
  unfold handleFederationConnectPeer at h
  split at h
  · cases h
    rfl
  · cases h
    rfl
  · rw [Prog.exec_get_bind, Prog.exec_bind, exec_connectPeer, Option.bind_some] at h
    cases hout : (s.federation.connectPeer env.signatures (ownId s) dial).1 with
    | error e' =>
      rw [hout] at h
      cases h
      exact dialChange_of_error hout
    | ok o =>
      rw [hout] at h
      exact (not_error_of_sure (sure_bind sure_connectOutcome fun _ =>
        sure_bind sure_emitConsensusFloorCrossing fun _ => sure_pure) h ht ⟨e, rfl⟩).elim

/-- Whoever answers for the parent is not the parent. -/
def Mistaken (s : ServerState env) (dial : Dial) : Prop :=
  ∃ parent, parentToLink s = some parent ∧ ∃ a ∈ (dialChange s dial).pinned, a.1 ≠ parent

theorem sure_linkOutcome {parent : Hash32} {o : ConnectPeerOutcome}
    (h : ∀ a, o.admission = some a → a.1 = parent) :
    Sure (linkOutcome parent o : Handler env _) := by
  cases o with
  | pinned id addr tip key v =>
    unfold linkOutcome
    dsimp only
    rw [if_neg (not_not.2 (h _ rfl))]
    exact sure_bind sure_readClock fun _ =>
      sure_bind (sure_of_succeeds succeeds_emitPinned federal_emitPinned) fun _ =>
        sure_bind (sure_emitSubstrateEvent (by decide)) fun _ => sure_pure
  | rejectedSelfConnection addr => exact sure_pure
  | rejectedIdentityDrift id new previous => exact sure_pure
  | rejectedSignatureInvalid id addr reason => exact sure_pure
  | alreadyPinned id addr => exact sure_pure

/-- A link to the parent fails and changes the connections just if somebody else answers. -/
theorem link_fails_iff {dial : Dial} {request : Message}
    {r : Except SubstrateError (Option Message)}
    (h : (handleFederationLinkToParentFromHint dial request).exec s = some (r, t))
    (ht : ¬ Collided t) :
    (∃ e, r = .error e) ∧ t.federation.peers ≠ s.federation.peers ↔ Mistaken s dial := by
  rcases link_cases h with ⟨hnone, rfl⟩ | ⟨parent, hparent, ⟨e, he, -, rfl⟩ | ⟨o, r', ho, hexec, hr⟩⟩
  · refine iff_of_false (fun hc => hc.2 rfl) ?_
    rintro ⟨parent, hparent, -⟩
    rw [hnone] at hparent
    cases hparent
  · refine iff_of_false (fun hc => hc.2 ?_) ?_
    · exact congrArg FederationState.peers (dialChange_of_error he)
    · rintro ⟨-, -, a, ha, -⟩
      rw [dialChange, he] at ha
      cases ha
  · have hmistaken : Mistaken s dial ↔ ∃ a, o.admission = some a ∧ a.1 ≠ parent := by
      unfold Mistaken
      rw [hparent, dialled_pins ho]
      simp
    rw [hr, hmistaken]
    by_cases hex : ∃ a, o.admission = some a ∧ a.1 ≠ parent
    · refine iff_of_true ?_ hex
      obtain ⟨a, ha, hne⟩ := hex
      cases o with
      | pinned id addr tip key v =>
        cases ha
        unfold linkOutcome at hexec
        dsimp only at hexec
        rw [if_pos hne] at hexec
        cases hexec
        refine ⟨⟨_, rfl⟩, ?_⟩
        rcases @dialChange_cases _ s dial with hsame | ⟨id', key', addr', hd, -⟩
        · have hpinned := dialled_pins ho
          rw [hsame] at hpinned
          cases hpinned
        · show (dialChange s dial).federation.peers ≠ _
          rw [hd]
          simp
      | _ => cases ha
    · refine iff_of_false (fun hc => ?_) hex
      refine not_error_of_sure (sure_linkOutcome fun a ha => ?_) hexec ht hc.1
      by_contra hne
      exact hex ⟨a, ha, hne⟩

end

/-! ### A step -/

def Event.failed : Event → Prop
  | .call _ (.error _) => True
  | _ => False

/-- Every established peer is pinned in the log, and a failure has changed no connection. -/
def KeepsPinned (s : ServerState env) (e : Event) (t : ServerState env) : Prop :=
  LivePinned t ∧ (e.failed → t.federation.peers = s.federation.peers)

/-- Somebody else answers for the parent, or accepting fails with connections accepted. -/
def Strays (s : ServerState env) : Event → Prop
  | .call (.linkToParent dial _) _ => Mistaken s dial
  | .call (.poll input _) _ | .call (.tick input) _ =>
    acceptFails s input ∧ input.accepted.connections ≠ []
  | _ => False

section

variable {s t : ServerState env} {e : Event} {es : List Event} {a : Hash32 × Option Hash32}

theorem failed_call {c : Call} {answer : Answer} :
    (Event.call c answer).failed ↔ ∃ e, answer = .error e := by
  cases answer <;> simp [Event.failed]

/-- Whoever a step pins is pinned in the log. -/
theorem PeerStep.leavesPin (h : PeerStep s e t) (ha : a ∈ (e.change s).pinned) :
    LeavesPin a s t := by
  cases h with
  | other => cases ha
  | @call _ c answer hc h ht =>
    cases c with
    | openListener bound request =>
      change a ∈ (openListenerChange s bound request).pinned at ha
      unfold openListenerChange at ha
      split at ha <;> cases ha
    | closeListener request => cases ha
    | connectPeer dial request => exact connect_pins h ht ha
    | linkToParent dial request => exact link_pins h ht ha
    | poll input request => exact poll_pins h ht ha
    | tick input =>
      rcases Prog.exec_bind_eq_some.1 h with ⟨e, h1, -⟩ | ⟨_, u, h1, h2⟩
      · exact tick_pins h1 ht ha
      · cases h2
        exact tick_pins h1 ht ha
    | revoke | propose | submit | query | restart => cases hc

/-- The keys afterwards are those before and those that the step pins. -/
theorem keys_change (hs : ∀ p ∈ s.federation.peers, p.Sane (ownId s)) (hstray : ¬ Strays s e)
    (ha : a ∈ (e.change s).federation.pinnedKeys) :
    a ∈ s.federation.pinnedKeys ∨ a ∈ (e.change s).pinned := by
  rcases e with ⟨c, answer⟩ | _
  · cases c with
    | openListener bound request =>
      change a ∈ (openListenerChange s bound request).federation.pinnedKeys at ha
      unfold openListenerChange at ha
      split at ha
      · cases bound <;> exact .inl ha
      · exact .inl ha
    | connectPeer dial request =>
      change a ∈ (connectChange s dial request).federation.pinnedKeys at ha
      show _ ∨ a ∈ (connectChange s dial request).pinned
      unfold connectChange at ha ⊢
      split at ha
      · rename_i hnames
        rw [if_pos hnames]
        exact (pinnedKeys_dialChange ha).imp_right And.left
      · exact .inl ha
    | linkToParent dial request =>
      change a ∈ (linkChange s dial).federation.pinnedKeys at ha
      show _ ∨ a ∈ (linkChange s dial).pinned
      unfold linkChange at ha ⊢
      cases hparent : parentToLink s with
      | none =>
        rw [hparent] at ha
        exact .inl ha
      | some parent =>
        rw [hparent] at ha
        refine (pinnedKeys_dialChange ha).imp_right fun ⟨hpinned, _⟩ => ?_
        refine List.mem_filter.2 ⟨hpinned, decide_eq_true ?_⟩
        by_contra hne
        exact hstray ⟨parent, hparent, a, hpinned, hne⟩
    | poll input request => exact pinnedKeys_pollChange hs ha
    | tick input =>
      change a ∈ (tickChange s input).federation.pinnedKeys at ha
      show _ ∨ a ∈ (tickChange s input).pinned
      unfold tickChange at ha ⊢
      split at ha
      · exact .inl ha
      · rename_i hactive
        rw [if_neg hactive]
        exact pinnedKeys_pollChange hs ha
    | restart acceptLegacyPeers => cases ha
    | closeListener | revoke | propose | submit | query => exact .inl ha
  · exact .inl ha

/-- A step that fails has changed the connections just if it strays. -/
theorem PeerStep.fails_iff (h : PeerStep s e t) :
    e.failed ∧ t.federation.peers ≠ s.federation.peers ↔ Strays s e := by
  have hsame : t.federation.peers = s.federation.peers → ¬ Strays s e →
      (e.failed ∧ t.federation.peers ≠ s.federation.peers ↔ Strays s e) := fun heq hstray =>
    iff_of_false (fun hc => hc.2 heq) hstray
  cases h with
  | other hf _ _ => exact hsame (congrArg _ hf) id
  | @call _ c answer hc h ht =>
    have hfed := (step_does (.call h)).federation_eq
    cases c with
    | openListener bound request =>
      refine hsame ?_ id
      rw [hfed]
      show (openListenerChange s bound request).federation.peers = _
      unfold openListenerChange
      split
      · cases bound <;> rfl
      · rfl
    | closeListener request => exact hsame ((congrArg FederationState.peers hfed).trans rfl) id
    | connectPeer dial request =>
      refine iff_of_false ?_ id
      rintro ⟨hfailed, hne⟩
      obtain ⟨e, rfl⟩ := failed_call.1 hfailed
      exact hne (congrArg _ (connect_error h ht))
    | linkToParent dial request =>
      rw [failed_call]
      exact link_fails_iff h ht
    | poll input request =>
      rw [failed_call, poll_fails_iff h ht, hfed]
      exact and_congr_right fun hfails => not_congr (peers_eq_of_acceptFails hfails)
    | tick input =>
      have hfails : (∃ e, answer = .error e) ↔ acceptFails s input := by
        rcases Prog.exec_bind_eq_some.1 h with ⟨e, h1, rfl⟩ | ⟨_, u, h1, h2⟩
        · rw [← tick_fails_iff h1 ht]
          simp
        · cases h2
          rw [← tick_fails_iff h1 ht]
          simp
      rw [failed_call, hfails, hfed]
      refine and_congr_right fun hfails => ?_
      have hactive : tickChange s input = pollChange s input := by
        refine if_neg fun hidle => ?_
        rw [Bool.and_eq_true, Option.isNone_iff_eq_none] at hidle
        simp [acceptFails, hidle.1] at hfails
      show (tickChange s input).federation.peers ≠ _ ↔ _
      rw [hactive]
      exact not_congr (peers_eq_of_acceptFails hfails)
    | revoke | propose | submit | query | restart => cases hc

theorem LivePinned.step (hs : ∀ p ∈ s.federation.peers, p.Sane (ownId s)) (hlive : LivePinned s)
    (h : PeerStep s e t) (hstray : ¬ Strays s e) : LivePinned t := by
  refine (livePinned_iff (h.sane hs)).2 fun a ha => ?_
  rw [h.peered.1] at ha
  rcases keys_change hs hstray ha with ha | ha
  · obtain ⟨n, hn, hlogs⟩ := (livePinned_iff hs).1 hlive a ha
    obtain ⟨ns, hns⟩ := h.nodes
    exact ⟨n, by rw [hns]; exact List.mem_append_left _ hn, hlogs⟩
  · exact h.leavesPin ha

theorem keepsPinned_iff (hs : ∀ p ∈ s.federation.peers, p.Sane (ownId s)) (hlive : LivePinned s)
    (h : PeerStep s e t) : KeepsPinned s e t ↔ ¬ Strays s e := by
  constructor
  · rintro ⟨-, hkeeps⟩ hstray
    obtain ⟨hfailed, hne⟩ := h.fails_iff.2 hstray
    exact hne (hkeeps hfailed)
  · intro hstray
    refine ⟨hlive.step hs h hstray, fun hfailed => ?_⟩
    by_contra hne
    exact hstray (h.fails_iff.1 ⟨hfailed, hne⟩)

/-- Over a run that starts without connections, every established peer is pinned in the log and no
failure changes a connection, just if nobody else answers for the parent and accepting never fails
with connections accepted. -/
theorem live_pinned_iff (hs : s.federation.peers = []) (_ : PeerRun s es t) :
    Path.Always PeerStep KeepsPinned s es t ↔
    Path.Always PeerStep (fun u e _ => ¬ Strays u e) s es t := by
  have hstart : LivePinned s ∧ ∀ p ∈ s.federation.peers, p.Sane (ownId s) := by
    unfold LivePinned
    rw [hs]
    exact ⟨nofun, nofun⟩
  refine Path.always_iff (I := fun u => LivePinned u ∧ ∀ p ∈ u.federation.peers, p.Sane (ownId u))
    hstart (fun u e v hstep hu => keepsPinned_iff hu.2 hu.1 hstep) fun u e v hstep hu hkeeps => ?_
  exact ⟨hkeeps.1, hstep.sane hu.2⟩

end

/-! ### Somebody else answers for the parent -/

section

def parentId : Hash32 := .replicate 7

/-- The log knows where the parent listens. -/
def hinted : ServerState twoKeysEnv := stateOf twoKeysEnv [⟨[], parentFederationHintType, 0, cbEncode
  [("parent_substrate_id", hashValue parentId), ("parent_federation_addr", .string "p:1")]⟩]

/-- A peer answers there, and it is not the parent. -/
def mistakenLink : Call :=
  .linkToParent ⟨.ok "p:1", .ok (), .ok (),
      .ok (some { helloUnder oldKey 0 with messageType := "fed_hello_ack" }), 0⟩
    ⟨"federation_link_to_parent_from_hint", 1, []⟩

theorem exists_mistakenLink : ∃ es, ∃ t : ServerState twoKeysEnv, PeerRun hinted es t ∧
    (∃ p ∈ t.federation.peers, p.state = .established) ∧
    ∀ n ∈ t.nodes, ¬ startsWith federationPeerPinnedPrefix n.nodeType := by
  have h : (peerCalls hinted [mistakenLink]).any (fun p =>
      p.2.federation.peers.any (fun q => q.state = .established) &&
      p.2.nodes.all fun n => ¬ utf8 federationPeerPinnedPrefix <+: utf8 n.nodeType) = true := by
    decide +kernel
  obtain ⟨⟨es, t⟩, hrun, ht⟩ := (Option.any_eq_true _ _).1 h
  rw [Bool.and_eq_true, List.any_eq_true, List.all_eq_true] at ht
  obtain ⟨⟨p, hp, hstate⟩, hnodes⟩ := ht
  exact ⟨es, t, peerRun_of_peerCalls hrun, ⟨p, hp, of_decide_eq_true hstate⟩,
    fun n hn => of_decide_eq_true (hnodes n hn)⟩

theorem mistaken_link_unpinned : ∃ es, ∃ t : ServerState twoKeysEnv,
    hinted.federation.peers = [] ∧ PeerRun hinted es t ∧ ¬ LivePinned t := by
  obtain ⟨es, t, hrun, ⟨p, hp, hstate⟩, hnodes⟩ := exists_mistakenLink
  refine ⟨es, t, rfl, hrun, fun hlive => ?_⟩
  obtain ⟨id, -, n, hn, htype, -⟩ := hlive p hp hstate
  exact hnodes n hn (by rw [htype]; exact startsWith_append)

theorem live_pinned_mistakenLink : ∃ es, ∃ t : ServerState twoKeysEnv, PeerRun hinted es t ∧
    (Path.Always PeerStep KeepsPinned hinted es t ↔
      Path.Always PeerStep (fun u e _ => ¬ Strays u e) hinted es t) := by
  obtain ⟨es, t, hrun, -⟩ := exists_mistakenLink
  exact ⟨es, t, hrun, live_pinned_iff rfl hrun⟩

end

end Myco.Consensus
