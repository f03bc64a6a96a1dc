import Mathlib.Data.List.Chain
import Myco.Consensus.Peering
import Myco.Consensus.Run

/-!
# The floor and its log

A poll that has accepted and a connection out compare the number of connections before and after, and
write an event when it has crossed the floor. A tick, a link to the parent and a poll whose accepting
fails change the number and compare nothing. So the log says what holds of the floor for as long as
none of these three crosses it (`floor_log_tracks_iff`).
-/

namespace Myco.Consensus

open Myco.Lib Myco.Canonical Myco.Schema Myco.Substrate Myco.Federation

variable {env : Env}

/-! ### What the log says -/

/-- The last event of the floor says whether it is active, and they alternate; without one it is
not. -/
structure FloorTracks (s : ServerState env) : Prop where
  last : (floorLog s).getLast?.getD false = consensusFloorActive s
  alternates : (floorLog s).IsChain (· ≠ ·)

def floorActive (f : FederationState) : Bool := f.peerCount ≥ consensusFloorMinPeers

theorem consensusFloorActive_eq {s : ServerState env} :
    consensusFloorActive s = floorActive s.federation := rfl

/-- What is written when the floor was and is so. -/
def crossing (was is : Bool) : List Bool := if was = is then [] else [is]

@[simp] theorem crossing_self {b : Bool} : crossing b b = [] := if_pos rfl

/-! ### What the calls write -/

section

variable {s t : ServerState env}

theorem emitConsensusFloorCrossing_log {priorPeerCount : Nat} {r : Except SubstrateError PUnit}
    (h : (emitConsensusFloorCrossingIfNeeded priorPeerCount).exec s = some (r, t))
    (ht : ¬ Collided t) : floorLog t = floorLog s ++
      crossing (priorPeerCount ≥ consensusFloorMinPeers) (consensusFloorActive s) := by
  have hemit : ∀ {nodeType : String} {content : Bytes} {b : Bool} {r : Except SubstrateError PUnit},
      nodeType ≠ "" → (∀ n : DagNode, n.nodeType = nodeType → floorMark n = some b) →
      (do let _ ← emitSubstrateEvent nodeType content
          pure ⟨⟩ : Handler env PUnit).exec s = some (r, t) →
      floorLog t = floorLog s ++ [b] := by
    intro nodeType content b r hne hmark he
    have happends : t.nodes = s.nodes ++ [Insertion.node env.blake3
        ⟨s.tipParents, nodeType, s.cycleCounter, content⟩] := by
      rcases Prog.exec_bind_eq_some.1 he with ⟨e, h1, -⟩ | ⟨hash, u, h1, h2⟩
      · exact ((emitSubstrateEvent_tip hne h1).holds ht).nodes
      · cases h2
        exact ((emitSubstrateEvent_tip hne h1).holds ht).nodes
    rw [floorLog, happends, List.filterMap_append, List.filterMap_cons, hmark _ rfl]
    rfl
  rw [emitConsensusFloorCrossingIfNeeded, Prog.exec_get_bind] at h
  dsimp only at h
  rw [consensusFloorActive]
  unfold crossing
  split at h
  · rename_i hsame
    cases h
    rw [if_pos hsame, List.append_nil]
  · rename_i hdiff
    rw [if_neg hdiff]
    split at h
    · rename_i hactive
      rw [hactive]
      exact hemit (by decide) (fun n hn => if_pos hn) h
    · rename_i hinactive
      rw [Bool.not_eq_true] at hinactive
      rw [hinactive]
      exact hemit (by decide) (fun n hn => by
        rw [floorMark, hn, if_neg (by decide), if_pos rfl]) h

/-- A call that only lets the connections be and writes of federation and immunity. -/
theorem floorLog_of_federal {α : Type} {m : Handler env α} {r : Except SubstrateError α}
    (hm : Within (Barring (Adds Federal)) m) (h : m.exec s = some (r, t)) (ht : ¬ Collided t) :
    floorLog t = floorLog s ∧ t.federation = s.federation :=
  ⟨floorLog_of_adds ((hm s r t h).holds ht), congrArg Prod.fst ((hm s r t h).holds ht).party⟩

/-- Accepting connections ends with an error. -/
def acceptFails (s : ServerState env) (input : PollInput) : Bool :=
  s.federation.listener.isSome && input.accepted.error.isSome

theorem serve_of_acceptFails {input : PollInput} (h : acceptFails s input) :
    ∃ e, (serve s input).1 = .error e ∧
      (serve s input).2 = (s.federation.acceptPending input.accepted).2 := by
  unfold acceptFails at h
  rw [Bool.and_eq_true] at h
  obtain ⟨⟨l, hl⟩, e, he⟩ := h.imp Option.isSome_iff_exists.1 Option.isSome_iff_exists.1
  have haccept : (s.federation.acceptPending input.accepted).1 = .error (.io e) := by
    simp only [FederationState.acceptPending, hl, he]
  unfold serve
  generalize s.federation.acceptPending input.accepted = accepted at haccept
  obtain ⟨outcome, f⟩ := accepted
  subst haccept
  exact ⟨_, rfl, rfl⟩

theorem serve_of_not_acceptFails {input : PollInput} (h : ¬ acceptFails s input) :
    ∃ r, (serve s input).1 = .ok r := by
  have haccept : ∃ n, (s.federation.acceptPending input.accepted).1 = .ok n := by
    unfold FederationState.acceptPending
    cases hl : s.federation.listener with
    | none => exact ⟨_, rfl⟩
    | some l =>
      cases he : input.accepted.error with
      | none => exact ⟨_, rfl⟩
      | some e => exact absurd (by simp [acceptFails, hl, he]) h
  unfold serve
  generalize s.federation.acceptPending input.accepted = accepted at haccept
  obtain ⟨outcome, f⟩ := accepted
  obtain ⟨n, rfl⟩ := haccept
  exact ⟨_, rfl⟩

theorem barring_emitConsensusFloorCrossing {priorPeerCount : Nat} : Within
    (Barring (Adds fun _ => True))
    (emitConsensusFloorCrossingIfNeeded priorPeerCount : Handler env PUnit) := by
  refine within_bind within_get fun s => ?_
  dsimp only
  split
  · exact within_pure
  · split
    · exact within_bind (barring_emitSubstrateEvent (by decide) fun _ _ _ => trivial)
        fun _ => within_pure
    · exact within_bind (barring_emitSubstrateEvent (by decide) fun _ _ _ => trivial)
        fun _ => within_pure

/-- What a call writes that compares the number of connections when it is done. -/
theorem crossing_log {α β : Type} {m : Handler env α} {k : α → Handler env β}
    {r : Except SubstrateError β} {prior : Nat} {u : ServerState env}
    (hm : Within (Barring (Adds Federal)) m)
    (hfail : ∀ e v, m.exec u = some (.error e, v) → ¬ Collided v → False)
    (hk : ∀ a, ∃ g : PUnit → Handler env β, k a = emitConsensusFloorCrossingIfNeeded prior >>= g ∧
      ∀ x v r w, (g x).exec v = some (r, w) → w = v)
    (h : (m >>= k).exec u = some (r, t)) (ht : ¬ Collided t) :
    floorLog t = floorLog u ++
      crossing (prior ≥ consensusFloorMinPeers) (consensusFloorActive t) := by
  rcases Prog.exec_bind_eq_some.1 h with ⟨e, h1, -⟩ | ⟨a, v, h1, h2⟩
  · exact (hfail e t h1 ht).elim
  · obtain ⟨g, hg, hread⟩ := hk a
    rw [hg] at h2
    have hcross : ∃ r, (emitConsensusFloorCrossingIfNeeded prior).exec v = some (r, t) := by
      rcases Prog.exec_bind_eq_some.1 h2 with ⟨e, h3, -⟩ | ⟨_, w, h3, h4⟩
      · exact ⟨_, h3⟩
      · rw [hread _ _ _ _ h4]
        exact ⟨_, h3⟩
    obtain ⟨r', hcross⟩ := hcross
    have hbarring := barring_emitConsensusFloorCrossing v r' t hcross
    have hv : ¬ Collided v := fun hc => ht (hbarring.stays hc)
    have hfed : t.federation = v.federation := congrArg Prod.fst (hbarring.holds ht).party
    have hactive : consensusFloorActive t = consensusFloorActive v := by
      rw [consensusFloorActive_eq, hfed, consensusFloorActive_eq]
    rw [emitConsensusFloorCrossing_log hcross ht, (floorLog_of_federal hm h1 hv).1, hactive]

theorem poll_log {input : PollInput} {request : Message} {r : Except SubstrateError (Option Message)}
    (h : (handleFederationPoll input request).exec s = some (r, t)) (ht : ¬ Collided t) :
    floorLog t = floorLog s ++ if acceptFails s input then []
      else crossing (consensusFloorActive s) (consensusFloorActive t) := by
  rw [handleFederationPoll, Prog.exec_get_bind, Prog.exec_bind, exec_servePeers,
    Option.bind_some] at h
  by_cases hfails : acceptFails s input
  · obtain ⟨e, he, -⟩ := serve_of_acceptFails hfails
    rw [he] at h
    cases h
    rw [if_pos hfails, List.append_nil]
    rfl
  · obtain ⟨⟨accepted, events⟩, hserved⟩ := serve_of_not_acceptFails hfails
    rw [hserved] at h
    dsimp only at h
    rw [if_neg hfails]
    obtain ⟨now, u, h1, h⟩ := succeeds_readClock.exec_bind h
    have hu : floorLog u = floorLog s := by
      cases h1
      rfl
    rw [← hu]
    refine crossing_log (within_forM fun _ _ => federal_emitPollEvent) (fun e v he _ => ?_)
      (fun _ => ⟨_, rfl, fun x v r w hg => ?_⟩) h ht
    · obtain ⟨a, ha⟩ := succeeds_forM (fun _ _ => succeeds_emitPollEvent) _ _ _ he
      cases ha
    · cases hg
      rfl

theorem tick_log {input : PollInput} {r : Except SubstrateError PUnit}
    (h : (tickFederation input).exec s = some (r, t)) (ht : ¬ Collided t) :
    floorLog t = floorLog s := by
  rw [tickFederation, Prog.exec_get_bind] at h
  split at h
  · cases h
    rfl
  · rw [Prog.exec_bind, exec_servePeers, Option.bind_some] at h
    generalize (serve s input).1 = served at h
    cases served with
    | error e =>
      cases h
      rfl
    | ok p =>
      dsimp only at h
      split at h
      · cases h
        rfl
      · exact (floorLog_of_federal (within_bind barring_readClock fun _ =>
          within_forM fun _ _ => federal_emitPollEvent) h ht).1

theorem federal_connectOutcome {o : ConnectPeerOutcome} :
    Within (Barring (Adds Federal)) (connectOutcome o : Handler env _) := by
  cases o with
  | pinned id addr tip key v =>
    refine within_bind barring_readClock fun now => within_bind federal_emitFederationPeerPinned
      fun _ => ?_
    split
    · exact within_bind (within_attempt federal_emitFederationLegacyPeerPinned) fun _ => within_pure
    · exact within_pure
  | rejectedSelfConnection addr => exact within_pure
  | rejectedIdentityDrift id new previous =>
    exact within_bind (within_attempt federal_emitFederationPeerRejected) fun _ => within_pure
  | rejectedSignatureInvalid id addr reason =>
    exact within_bind (within_attempt federal_emitFederationHelloSignatureInvalid) fun _ =>
      within_pure
  | alreadyPinned id addr => exact within_pure

theorem sure_emitFederationPeerPinned {id : Hash32} {addr : String} {now : Int64}
    {key : Option Hash32} : Sure (emitFederationPeerPinned id addr now key : Handler env NodeHash) :=
  sure_emitSubstrateEvent (ne_of_startsWith_federation startsWith_peerPinned)

theorem sure_connectOutcome {o : ConnectPeerOutcome} :
    Sure (connectOutcome o : Handler env _) := by
  cases o with
  | pinned id addr tip key v =>
    refine sure_bind sure_readClock fun now => sure_bind sure_emitFederationPeerPinned fun _ => ?_
    split
    · exact sure_bind (sure_attempt federal_emitFederationLegacyPeerPinned) fun _ => sure_pure
    · exact sure_pure
  | rejectedSelfConnection addr => exact sure_pure
  | rejectedIdentityDrift id new previous =>
    exact sure_bind (sure_attempt federal_emitFederationPeerRejected) fun _ => sure_pure
  | rejectedSignatureInvalid id addr reason =>
    exact sure_bind (sure_attempt federal_emitFederationHelloSignatureInvalid) fun _ => sure_pure
  | alreadyPinned id addr => exact sure_pure

/-- A connection out that fails changes nothing. -/
theorem dialChange_of_error {dial : Dial} {e : SubstrateError}
    (h : (s.federation.connectPeer env.signatures (ownId s) dial).1 = .error e) :
    (dialChange s dial).federation = s.federation := by
  rcases @connectPeer_cases env.signatures (ownId s) s.federation dial with
    ⟨hf, -⟩ | ⟨id, addr, tip, key, v, ho, -⟩
  · exact hf
  · rw [h] at ho
    cases ho

theorem connect_log {dial : Dial} {request : Message} {r : Except SubstrateError (Option Message)}
    (h : (handleFederationConnectPeer dial request).exec s = some (r, t)) (ht : ¬ Collided t) :
    floorLog t = floorLog s ++ crossing (consensusFloorActive s) (consensusFloorActive t) := by
  unfold handleFederationConnectPeer at h
  split at h
  · cases h
    rw [crossing_self, List.append_nil]
  · cases h
    rw [crossing_self, List.append_nil]
  · rw [Prog.exec_get_bind, Prog.exec_bind, exec_connectPeer, Option.bind_some] at h
    cases hout : (s.federation.connectPeer env.signatures (ownId s) dial).1 with
    | error e =>
      rw [hout] at h
      cases h
      rw [consensusFloorActive_eq, consensusFloorActive_eq, setFederation, dialChange_of_error hout,
        crossing_self, List.append_nil]
    | ok outcome =>
      rw [hout] at h
      dsimp only at h
      have hlog : floorLog (setFederation (dialChange s dial).federation s) = floorLog s := rfl
      rw [← hlog]
      refine crossing_log federal_connectOutcome (fun e v he hv => ?_)
        (fun _ => ⟨_, rfl, fun x v r w hg => ?_⟩) h ht
      · obtain ⟨a, ha⟩ := (sure_connectOutcome _ _ _ he).holds hv
        cases ha
      · cases hg
        rfl

theorem federal_linkOutcome {parent : Hash32} {o : ConnectPeerOutcome} :
    Within (Barring (Adds Federal)) (linkOutcome parent o : Handler env _) := by
  cases o with
  | pinned id addr tip key v =>
    unfold linkOutcome
    dsimp only
    split
    · exact within_throw
    · exact within_bind barring_readClock fun _ => within_bind federal_emitPinned fun _ =>
        within_bind (federal_emitSubstrateEvent (by decide)) fun _ => within_pure
  | rejectedSelfConnection addr => exact within_pure
  | rejectedIdentityDrift id new previous => exact within_pure
  | rejectedSignatureInvalid id addr reason => exact within_pure
  | alreadyPinned id addr => exact within_pure

/-- There is no parent to link to and nothing happens, or the parent is dialled. -/
theorem link_cases {dial : Dial} {request : Message} {r : Except SubstrateError (Option Message)}
    (h : (handleFederationLinkToParentFromHint dial request).exec s = some (r, t)) :
    (parentToLink s = none ∧ t = s) ∨
    ∃ parent, parentToLink s = some parent ∧
      let dialled := setFederation (dialChange s dial).federation s
      let outcome := (s.federation.connectPeer env.signatures (ownId s) dial).1
      (∃ e, outcome = .error e ∧ r = .error e ∧ t = dialled) ∨
      ∃ o r', outcome = .ok o ∧ (linkOutcome parent o).exec dialled = some (r', t) ∧
        ((∃ e, r = .error e) ↔ ∃ e, r' = .error e) := by
  rw [handleFederationLinkToParentFromHint, Prog.exec_get_bind] at h
  dsimp only at h
  split at h
  · rename_i hget
    cases h
    exact .inl ⟨by rw [parentToLink, hget], rfl⟩
  · rename_i hint hget
    split at h
    · rename_i e hread
      cases h
      exact .inl ⟨by rw [parentToLink, hget]; dsimp only; rw [hread], rfl⟩
    · rename_i parent addr hread
      have hparent : parentToLink s =
          if s.nodes.any fun n => n.nodeType = federationParentLinkedType then none
          else some parent := by
        rw [parentToLink, hget]
        dsimp only
        rw [hread]
      split at h
      · rename_i hlinked
        cases h
        exact .inl ⟨hparent.trans (if_pos hlinked), rfl⟩
      · rename_i hlinked
        refine .inr ⟨parent, hparent.trans (if_neg hlinked), ?_⟩
        rw [Prog.exec_bind, exec_connectPeer, Option.bind_some] at h
        dsimp only
        generalize (s.federation.connectPeer env.signatures (ownId s) dial).1 = outcome at h ⊢
        cases outcome with
        | error e =>
          cases h
          exact .inl ⟨e, rfl, rfl, rfl⟩
        | ok o =>
          rcases Prog.exec_bind_eq_some.1 h with ⟨e, h1, rfl⟩ | ⟨entries, u, h1, h2⟩
          · exact .inr ⟨o, _, rfl, h1, by simp⟩
          · cases h2
            exact .inr ⟨o, _, rfl, h1, by simp⟩

theorem link_log {dial : Dial} {request : Message} {r : Except SubstrateError (Option Message)}
    (h : (handleFederationLinkToParentFromHint dial request).exec s = some (r, t))
    (ht : ¬ Collided t) : floorLog t = floorLog s := by
  rcases link_cases h with ⟨-, rfl⟩ | ⟨parent, -, ⟨e, -, -, rfl⟩ | ⟨o, r', -, ho, -⟩⟩
  · rfl
  · rfl
  · exact (floorLog_of_federal federal_linkOutcome ho ht).1

theorem openListener_log {bound : Except SubstrateError FederationListener} {request : Message}
    {r : Except SubstrateError (Option Message)}
    (h : (handleFederationOpenListener bound request).exec s = some (r, t)) (ht : ¬ Collided t) :
    floorLog t = floorLog s := by
  unfold handleFederationOpenListener at h
  split at h
  · cases h
    rfl
  · cases h
    rfl
  · rw [Prog.exec_bind, exec_openListener, Option.bind_some] at h
    generalize (s.federation.openListener bound).1 = outcome at h
    cases outcome with
    | error e =>
      cases h
      rfl
    | ok l => exact (floorLog_of_federal (within_bind (federal_emitSubstrateEvent (by decide))
        fun _ => within_pure) h ht).1

theorem closeListener_log {request : Message} {r : Except SubstrateError (Option Message)}
    (h : (handleFederationCloseListener request).exec s = some (r, t)) (ht : ¬ Collided t) :
    floorLog t = floorLog s := by
  have hclose : (closeListener : Handler env _).exec s =
      some (.ok s.federation.listener, setFederation s.federation.closeListener.2 s) := rfl
  rw [handleFederationCloseListener, Prog.exec_bind, hclose, Option.bind_some] at h
  dsimp only at h
  split at h
  · cases h
    rfl
  · exact (floorLog_of_federal (within_bind barring_readClock fun _ =>
      within_bind (federal_emitSubstrateEvent (by decide)) fun _ => within_pure) h ht).1

end

/-! ### A step -/

/-- The call does not compare the number of connections before and after. -/
def Event.uncompared (s : ServerState env) : Event → Bool
  | .call (.linkToParent ..) _ | .call (.tick _) _ => true
  | .call (.poll input _) _ => acceptFails s input
  | _ => false

/-- The number of connections crosses the floor and is not compared. -/
def CrossesUnseen (s : ServerState env) (e : Event) : Prop :=
  e.uncompared s ∧ floorActive (e.change s).federation ≠ consensusFloorActive s

section

variable {s t : ServerState env} {e : Event} {es : List Event}

theorem PeerStep.floorActive (h : PeerStep s e t) :
    consensusFloorActive t = floorActive (e.change s).federation := by
  rw [consensusFloorActive_eq, h.peered.1]

theorem floorActive_of_peers {f g : FederationState} (h : f.peers = g.peers) :
    floorActive f = floorActive g := by
  rw [floorActive, floorActive, FederationState.peerCount, FederationState.peerCount, h]

theorem step_log (h : PeerStep s e t) : floorLog t = floorLog s ++ if e.uncompared s then []
    else crossing (consensusFloorActive s) (consensusFloorActive t) := by
  have hsame : (e.change s).federation.peers = s.federation.peers → floorLog t = floorLog s →
      floorLog t = floorLog s ++ if e.uncompared s then []
        else crossing (consensusFloorActive s) (consensusFloorActive t) := by
    intro hpeers hlog
    rw [h.floorActive, floorActive_of_peers hpeers, ← consensusFloorActive_eq, crossing_self, ite_self,
      List.append_nil, hlog]
  cases h with
  | other hf _ hn =>
    refine hsame rfl ?_
    obtain ⟨ns, hn, hns⟩ := hn
    rw [floorLog, hn, List.filterMap_append, List.filterMap_eq_nil_iff.2 hns, List.append_nil,
      floorLog]
  | @call _ c answer hc h ht =>
    cases c with
    | openListener bound request =>
      refine hsame ?_ (openListener_log h ht)
      show (openListenerChange s bound request).federation.peers = _
      unfold openListenerChange
      split
      · cases bound <;> rfl
      · rfl
    | closeListener request => exact hsame rfl (closeListener_log h ht)
    | connectPeer dial request => exact connect_log h ht
    | linkToParent dial request => exact (link_log h ht).trans (List.append_nil _).symm
    | poll input request => exact poll_log h ht
    | tick input =>
      refine Eq.trans ?_ (List.append_nil _).symm
      rcases Prog.exec_bind_eq_some.1 h with ⟨e, h1, -⟩ | ⟨_, u, h1, h2⟩
      · exact tick_log h1 ht
      · cases h2
        exact tick_log h1 ht
    | revoke | propose | submit | query | restart => cases hc

theorem FloorTracks.step_iff (hs : FloorTracks s) (h : PeerStep s e t) :
    FloorTracks t ↔ ¬ CrossesUnseen s e := by
  have hlog := step_log h
  have hactive := h.floorActive
  by_cases hun : e.uncompared s
  · rw [if_pos hun, List.append_nil] at hlog
    constructor
    · rintro ht ⟨-, hne⟩
      exact hne (by rw [← hactive, ← ht.last, hlog, hs.last])
    · intro hc
      have hsame : consensusFloorActive t = consensusFloorActive s := by
        rw [hactive]
        exact not_not.1 fun hne => hc ⟨hun, hne⟩
      exact ⟨by rw [hlog, hs.last, hsame], hlog ▸ hs.alternates⟩
  · refine iff_of_true ?_ fun hc => hun hc.1
    rw [if_neg hun] at hlog
    unfold crossing at hlog
    split at hlog
    · rename_i hsame
      rw [List.append_nil] at hlog
      exact ⟨by rw [hlog, hs.last, hsame], hlog ▸ hs.alternates⟩
    · rename_i hdiff
      refine ⟨by rw [hlog, List.getLast?_append]; rfl, ?_⟩
      rw [hlog]
      refine hs.alternates.append (.singleton _) fun b hb c hc => ?_
      cases hc
      have hlast := hs.last
      rw [Option.mem_def.1 hb] at hlast
      exact fun heq => hdiff (hlast.symm.trans heq)

/-- Without connections the log must not end with an activation. -/
theorem floorTracks_of_no_peers (hs : s.federation.peers = []) :
    FloorTracks s ↔ (floorLog s).getLast? ≠ some true ∧ (floorLog s).IsChain (· ≠ ·) := by
  have hactive : consensusFloorActive s = false := by
    rw [consensusFloorActive_eq, floorActive, FederationState.peerCount, hs]
    rfl
  have hlast : (floorLog s).getLast?.getD false = false ↔ (floorLog s).getLast? ≠ some true := by
    cases (floorLog s).getLast? with
    | none => simp
    | some b => cases b <;> simp
  constructor
  · exact fun h => ⟨hlast.1 (h.last.trans hactive), h.alternates⟩
  · exact fun h => ⟨(hlast.2 h.1).trans hactive.symm, h.2⟩

/-- The log says at every time what holds of the floor just if it does so at the start, and no tick,
link to the parent or poll whose accepting fails crosses the floor. -/
theorem floor_log_tracks_iff (hs : s.federation.peers = []) (_ : PeerRun s es t) :
    (FloorTracks s ∧ Path.Always PeerStep (fun _ _ v => FloorTracks v) s es t) ↔
    ((floorLog s).getLast? ≠ some true ∧ (floorLog s).IsChain (· ≠ ·)) ∧
      Path.Always PeerStep (fun u e _ => ¬ CrossesUnseen u e) s es t := by
  rw [← floorTracks_of_no_peers hs]
  refine and_congr_right fun htracks => ?_
  exact Path.always_iff (I := FloorTracks) htracks (fun u e v hstep hu => hu.step_iff hstep)
    fun u e v _ _ hv => hv

end

/-! ### Three connections that a tick accepts -/

section

/-- A tick finds three substrates that have connected, and no hello. -/
def threeConnect : Call :=
  .tick ⟨⟨[("a:1", 0), ("b:1", 0), ("c:1", 0)], none⟩,
    ⟨fun _ => ⟨.ok none, .ok ()⟩, fun _ => ⟨.ok none, .ok ()⟩⟩⟩

theorem exists_threeConnect : ∃ es, ∃ t : ServerState twoKeysEnv,
    PeerRun (stateOf twoKeysEnv []) es t ∧ floorLog t = [] ∧ consensusFloorActive t = true := by
  have h : (peerCalls (stateOf twoKeysEnv []) [listening, threeConnect]).any
      (fun p => decide (floorLog p.2 = []) && consensusFloorActive p.2) = true := by
    decide +kernel
  obtain ⟨⟨es, t⟩, hrun, ht⟩ := (Option.any_eq_true _ _).1 h
  rw [Bool.and_eq_true, decide_eq_true_eq] at ht
  exact ⟨es, t, peerRun_of_peerCalls hrun, ht.1, ht.2⟩

/-- The floor is active, and nothing in the log says so. -/
theorem floor_active_unlogged : ∃ es, ∃ t : ServerState twoKeysEnv,
    PeerRun (stateOf twoKeysEnv []) es t ∧ (stateOf twoKeysEnv []).federation.peers = [] ∧
    floorLog (stateOf twoKeysEnv []) = [] ∧ ¬ FloorTracks t := by
  obtain ⟨es, t, hrun, hlog, hactive⟩ := exists_threeConnect
  refine ⟨es, t, hrun, rfl, by decide, fun ht => ?_⟩
  have hlast := ht.last
  rw [hlog, hactive] at hlast
  cases hlast

theorem floor_log_tracks_threeConnect : ∃ es, ∃ t : ServerState twoKeysEnv,
    PeerRun (stateOf twoKeysEnv []) es t ∧
    ((FloorTracks (stateOf twoKeysEnv []) ∧
        Path.Always PeerStep (fun _ _ v => FloorTracks v) (stateOf twoKeysEnv []) es t) ↔
      ((floorLog (stateOf twoKeysEnv [])).getLast? ≠ some true ∧
        (floorLog (stateOf twoKeysEnv [])).IsChain (· ≠ ·)) ∧
      Path.Always PeerStep (fun u e _ => ¬ CrossesUnseen u e) (stateOf twoKeysEnv []) es t) := by
  obtain ⟨es, t, hrun, -⟩ := exists_threeConnect
  exact ⟨es, t, hrun, floor_log_tracks_iff rfl hrun⟩

end

end Myco.Consensus
