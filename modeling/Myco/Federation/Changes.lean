import Myco.Federation.Handlers

/-!
# What a handler changes in the federation

Each handler of federation lets the connections change in a way that the sockets and the state before
determine, its `Change`, and then writes to the log. `Changes c s t` says that the handler did `c` and
wrote the pins of `c` at most. A change that is `Admitted` keeps the connections sane, pins other
substrates only, and only with keys that have signed a hello.
-/

namespace Myco.Federation

open Myco.Lib Myco.Canonical Myco.Schema Myco.Substrate Myco.Consensus

variable {env : Env}

/-- The connections that are left, and the peers that are pinned, with their keys. -/
structure Change where
  federation : FederationState
  pinned : List (Hash32 × Option Hash32)

def Changes (c : Change) (s t : ServerState env) : Prop :=
  Adds (Pins c.pinned) (setFederation c.federation s) t

/-! ### The changes -/

def unchanged (s : ServerState env) : Change := ⟨s.federation, []⟩

def pollChange (s : ServerState env) (input : PollInput) : Change where
  federation := (serve s input).2
  pinned :=
    match (serve s input).1 with
    | .error _ => []
    | .ok (_, events) => admissions events

def tickChange (s : ServerState env) (input : PollInput) : Change :=
  if s.federation.listener.isNone && s.federation.peers.isEmpty then unchanged s
  else pollChange s input

def dialChange (s : ServerState env) (dial : Dial) : Change where
  federation := (s.federation.connectPeer env.signatures (ownId s) dial).2
  pinned :=
    match (s.federation.connectPeer env.signatures (ownId s) dial).1 with
    | .error _ => []
    | .ok outcome => outcome.admission.toList

/-- The request has a text there, and not an empty one. -/
def names (request : Message) (field : String) : Bool :=
  (string? request.payload field).any (· ≠ "")

def connectChange (s : ServerState env) (dial : Dial) (request : Message) : Change :=
  if names request "remote_addr" then dialChange s dial else unchanged s

/-- The parent that there is to link to. -/
def parentToLink (s : ServerState env) : Option Hash32 :=
  match (s.nodes.filter fun n => n.nodeType = parentFederationHintType).getLast? with
  | none => none
  | some hint =>
    match readParentFederationHint env hint.content with
    | .error _ => none
    | .ok (parentSubstrateId, _) =>
      if s.nodes.any fun n => n.nodeType = federationParentLinkedType then none
      else some parentSubstrateId

/-- A connection to somebody else than the parent is made, and not pinned. -/
def linkChange (s : ServerState env) (dial : Dial) : Change :=
  match parentToLink s with
  | none => unchanged s
  | some parentSubstrateId =>
    { dialChange s dial with
      pinned := (dialChange s dial).pinned.filter (·.1 = parentSubstrateId) }

def openListenerChange (s : ServerState env) (bound : Except SubstrateError FederationListener)
    (request : Message) : Change :=
  if names request "bind_addr" then ⟨(s.federation.openListener bound).2, []⟩ else unchanged s

def closeListenerChange (s : ServerState env) : Change := ⟨s.federation.closeListener.2, []⟩

/-! ### The handlers make them -/

section

variable {s t : ServerState env} {r : Except SubstrateError (Option Message)}

theorem changes_refl : Changes (unchanged s) s s := by
  show Adds (Pins []) s s
  exact Std.Refl.refl s

theorem changes_setFederation {c : Change} : Changes c s (setFederation c.federation s) := by
  unfold Changes
  exact Std.Refl.refl _

theorem exec_servePeers {input : PollInput} : (servePeers input).exec s =
    some ((serve s input).1, setFederation (serve s input).2 s) := by
  rw [servePeers, Prog.exec_get_bind]
  generalize serve s input = served
  obtain ⟨outcome, f⟩ := served
  cases outcome <;> rfl

theorem poll_changes {input : PollInput} {request : Message}
    (h : (handleFederationPoll input request).exec s = some (r, t)) :
    Changes (pollChange s input) s t := by
  rw [handleFederationPoll, Prog.exec_get_bind] at h
  rcases Prog.exec_bind_eq_some.1 h with ⟨e, h1, -⟩ | ⟨⟨accepted, events⟩, u, h1, h2⟩
  · rw [exec_servePeers, Option.some.injEq, Prod.mk.injEq] at h1
    obtain ⟨-, rfl⟩ := h1
    exact @changes_setFederation _ s (pollChange s input)
  · rw [exec_servePeers, Option.some.injEq, Prod.mk.injEq] at h1
    obtain ⟨hserved, rfl⟩ := h1
    have hpinned : (pollChange s input).pinned = admissions events := by
      simp only [pollChange, hserved]
    unfold Changes
    rw [hpinned]
    have hcrossing : Within (Adds (Pins (admissions events)))
        (emitConsensusFloorCrossingIfNeeded s.federation.peerCount : Handler env PUnit) :=
      adds_emitConsensusFloorCrossing.mono fun _ _ h => h.mono fun _ => .inl
    exact (within_bind adds_readClock fun _ => within_bind adds_emitPollEvents fun _ =>
      within_bind hcrossing fun _ => within_bind within_get fun _ => within_pure) _ _ _ h2

theorem tick_changes {input : PollInput} {r : Except SubstrateError PUnit}
    (h : (tickFederation input).exec s = some (r, t)) : Changes (tickChange s input) s t := by
  rw [tickFederation, Prog.exec_get_bind] at h
  unfold tickChange
  split at h
  · rename_i hidle
    cases h
    rw [if_pos hidle]
    exact changes_refl
  · rename_i hactive
    rw [if_neg hactive]
    rcases Prog.exec_bind_eq_some.1 h with ⟨e, h1, -⟩ | ⟨⟨accepted, events⟩, u, h1, h2⟩
    · rw [exec_servePeers, Option.some.injEq, Prod.mk.injEq] at h1
      obtain ⟨-, rfl⟩ := h1
      exact @changes_setFederation _ s (pollChange s input)
    · rw [exec_servePeers, Option.some.injEq, Prod.mk.injEq] at h1
      obtain ⟨hserved, rfl⟩ := h1
      have hpinned : (pollChange s input).pinned = admissions events := by
        simp only [pollChange, hserved]
      unfold Changes
      rw [hpinned]
      dsimp only at h2
      split at h2
      · cases h2
        exact Std.Refl.refl _
      · exact (within_bind adds_readClock fun _ => adds_emitPollEvents) _ _ _ h2

theorem exec_connectPeer {dial : Dial} : (connectPeer dial).exec s =
    some ((s.federation.connectPeer env.signatures (ownId s) dial).1,
      setFederation (dialChange s dial).federation s) := by
  rw [connectPeer, Prog.exec_get_bind, dialChange]
  generalize s.federation.connectPeer env.signatures (ownId s) dial = connected
  obtain ⟨outcome, f⟩ := connected
  cases outcome <;> rfl

theorem adds_connectOutcome {o : ConnectPeerOutcome} :
    Within (Adds (Pins o.admission.toList)) (connectOutcome o : Handler env _) := by
  cases o with
  | pinned id addr tip key v =>
    refine within_bind adds_readClock fun now => within_bind
      (adds_emitFederationPeerPinned (List.mem_singleton.2 rfl)) fun _ => ?_
    split
    · exact within_bind (within_attempt adds_emitFederationLegacyPeerPinned) fun _ => within_pure
    · exact within_pure
  | rejectedSelfConnection addr => exact within_pure
  | rejectedIdentityDrift id new previous =>
    exact within_bind (within_attempt adds_emitFederationPeerRejected) fun _ => within_pure
  | rejectedSignatureInvalid id addr reason =>
    exact within_bind (within_attempt adds_emitFederationHelloSignatureInvalid) fun _ => within_pure
  | alreadyPinned id addr => exact within_pure

theorem connect_changes {dial : Dial} {request : Message}
    (h : (handleFederationConnectPeer dial request).exec s = some (r, t)) :
    Changes (connectChange s dial request) s t := by
  unfold handleFederationConnectPeer at h
  unfold connectChange names
  split at h
  · rename_i haddr
    cases h
    rw [haddr]
    exact changes_refl
  · rename_i haddr
    cases h
    rw [haddr]
    exact changes_refl
  · rename_i remoteAddr hne haddr
    rw [haddr, Option.any_some, if_pos (by simpa using hne)]
    rw [Prog.exec_get_bind] at h
    rcases Prog.exec_bind_eq_some.1 h with ⟨e, h1, -⟩ | ⟨outcome, u, h1, h2⟩
    · rw [exec_connectPeer, Option.some.injEq, Prod.mk.injEq] at h1
      obtain ⟨-, rfl⟩ := h1
      exact changes_setFederation
    · rw [exec_connectPeer, Option.some.injEq, Prod.mk.injEq] at h1
      obtain ⟨hout, rfl⟩ := h1
      have hpinned : (dialChange s dial).pinned = outcome.admission.toList := by
        simp only [dialChange, hout]
      unfold Changes
      rw [hpinned]
      have hcrossing : Within (Adds (Pins outcome.admission.toList))
          (emitConsensusFloorCrossingIfNeeded s.federation.peerCount : Handler env PUnit) :=
        adds_emitConsensusFloorCrossing.mono fun _ _ h => h.mono fun _ => .inl
      exact (within_bind adds_connectOutcome fun _ => within_bind hcrossing fun _ =>
        within_pure) _ _ _ h2

theorem adds_linkOutcome {parent : Hash32} {o : ConnectPeerOutcome} :
    Within (Adds (Pins (o.admission.toList.filter (·.1 = parent))))
      (linkOutcome parent o : Handler env _) := by
  cases o with
  | pinned id addr tip key v =>
    unfold linkOutcome
    dsimp only
    by_cases hid : id = parent
    · subst hid
      rw [if_neg (not_not.2 rfl)]
      have hmem : (id, key) ∈ ([(id, key)] : List (Hash32 × Option Hash32)).filter (·.1 = id) := by
        simp
      exact within_bind adds_readClock fun now => within_bind (adds_emitPinned hmem) fun _ =>
        within_bind (adds_plain_type (by unfold PlainPrefix; decide)) fun _ => within_pure
    · rw [if_pos hid]
      exact within_throw
  | rejectedSelfConnection addr => exact within_pure
  | rejectedIdentityDrift id new previous => exact within_pure
  | rejectedSignatureInvalid id addr reason => exact within_pure
  | alreadyPinned id addr => exact within_pure

theorem linkChange_of_none {dial : Dial} (h : parentToLink s = none) :
    linkChange s dial = unchanged s := by
  rw [linkChange, h]

theorem link_changes {dial : Dial} {request : Message}
    (h : (handleFederationLinkToParentFromHint dial request).exec s = some (r, t)) :
    Changes (linkChange s dial) s t := by
  rw [handleFederationLinkToParentFromHint, Prog.exec_get_bind] at h
  dsimp only at h
  split at h
  · rename_i hget
    cases h
    rw [linkChange_of_none (by rw [parentToLink, hget])]
    exact changes_refl
  · rename_i hint hget
    split at h
    · rename_i e hread
      cases h
      rw [linkChange_of_none (by rw [parentToLink, hget]; dsimp only; rw [hread])]
      exact changes_refl
    · rename_i parent addr hread
      split at h
      · rename_i hlinked
        cases h
        rw [linkChange_of_none (by
          rw [parentToLink, hget]
          dsimp only
          rw [hread]
          exact if_pos hlinked)]
        exact changes_refl
      · rename_i hlinked
        have hparent : parentToLink s = some parent := by
          rw [parentToLink, hget]
          dsimp only
          rw [hread]
          exact if_neg hlinked
        rw [linkChange, hparent]
        rcases Prog.exec_bind_eq_some.1 h with ⟨e, h1, -⟩ | ⟨outcome, u, h1, h2⟩
        · rw [exec_connectPeer, Option.some.injEq, Prod.mk.injEq] at h1
          obtain ⟨-, rfl⟩ := h1
          exact @changes_setFederation _ s ⟨(dialChange s dial).federation, _⟩
        · rw [exec_connectPeer, Option.some.injEq, Prod.mk.injEq] at h1
          obtain ⟨hout, rfl⟩ := h1
          have hpinned : (dialChange s dial).pinned = outcome.admission.toList := by
            simp only [dialChange, hout]
          unfold Changes
          dsimp only
          rw [hpinned]
          exact (within_bind adds_linkOutcome fun _ => within_pure) _ _ _ h2

theorem exec_openListener {bound : Except SubstrateError FederationListener} :
    (openListener bound).exec s = some ((s.federation.openListener bound).1,
      setFederation (s.federation.openListener bound).2 s) := by
  rw [openListener, Prog.exec_get_bind]
  cases bound <;> rfl

theorem openListener_changes {bound : Except SubstrateError FederationListener} {request : Message}
    (h : (handleFederationOpenListener bound request).exec s = some (r, t)) :
    Changes (openListenerChange s bound request) s t := by
  unfold handleFederationOpenListener at h
  unfold openListenerChange names
  split at h
  · rename_i haddr
    cases h
    rw [haddr]
    exact changes_refl
  · rename_i haddr
    cases h
    rw [haddr]
    exact changes_refl
  · rename_i bindAddr hne haddr
    rw [haddr, Option.any_some, if_pos (by simpa using hne)]
    have hadds : ∀ l : FederationListener, Within (Adds (Pins [])) (emitSubstrateEvent
        federationListenerOpenedType (encodeFederationListenerOpened l.bindAddr l.openedAtUnixNs) :
          Handler env NodeHash) := fun l => adds_plain_type (by unfold PlainPrefix; decide)
    rcases Prog.exec_bind_eq_some.1 h with ⟨e, h1, -⟩ | ⟨l, u, h1, h2⟩
    · rw [exec_openListener, Option.some.injEq, Prod.mk.injEq] at h1
      obtain ⟨-, rfl⟩ := h1
      exact @changes_setFederation _ s ⟨(s.federation.openListener bound).2, _⟩
    · rw [exec_openListener, Option.some.injEq, Prod.mk.injEq] at h1
      obtain ⟨-, rfl⟩ := h1
      exact (within_bind (hadds l) fun _ => within_pure) _ _ _ h2

theorem closeListener_changes {request : Message}
    (h : (handleFederationCloseListener request).exec s = some (r, t)) :
    Changes (closeListenerChange s) s t := by
  have hclose : (closeListener : Handler env _).exec s =
      some (.ok s.federation.listener, setFederation s.federation.closeListener.2 s) := rfl
  rw [handleFederationCloseListener, Prog.exec_bind, hclose, Option.bind_some] at h
  dsimp only at h
  split at h
  · cases h
    exact Std.Refl.refl _
  · exact (within_bind adds_readClock fun _ => within_bind
      (adds_plain_type (by unfold PlainPrefix; decide)) fun _ => within_pure) _ _ _ h

end

/-! ### What they keep -/

/-- Whoever is pinned is another substrate, with a key that has signed a hello, and the connections
stay sane. -/
structure Change.Admitted (s : ServerState env) (c : Change) : Prop where
  other : ∀ a ∈ c.pinned, a.1 ≠ ownId s
  signed : ∀ id pk, (id, some pk) ∈ c.pinned → HelloSigned env.signatures id pk
  sane : (∀ p ∈ s.federation.peers, p.Sane (ownId s)) → ∀ p ∈ c.federation.peers, p.Sane (ownId s)

section

variable {s : ServerState env} {input : PollInput} {dial : Dial} {request : Message}

theorem Change.Admitted.of_pinned {s : ServerState env} {c : Change}
    (h : ∀ id key, (id, key) ∈ c.pinned → id ≠ ownId s ∧
      ∀ pk, key = some pk → HelloSigned env.signatures id pk)
    (hs : (∀ p ∈ s.federation.peers, p.Sane (ownId s)) →
      ∀ p ∈ c.federation.peers, p.Sane (ownId s)) : c.Admitted s :=
  ⟨fun _ ha => (h _ _ ha).1, fun _ _ ha => (h _ _ ha).2 _ rfl, hs⟩

theorem admitted_unchanged : (unchanged s).Admitted s := ⟨nofun, nofun, id⟩

theorem admitted_poll : (pollChange s input).Admitted s := by
  unfold pollChange serve
  split
  · rename_i e f haccept
    have hf : (s.federation.acceptPending input.accepted).2 = f := by rw [haccept]
    exact ⟨nofun, nofun, fun hs => hf ▸ sane_acceptPending hs⟩
  · rename_i accepted f haccept
    have hf : (s.federation.acceptPending input.accepted).2 = f := by rw [haccept]
    exact .of_pinned (fun id key h => admits_progressPeers h) fun hs =>
      sane_progressPeers (hf ▸ sane_acceptPending hs)

theorem admitted_tick : (tickChange s input).Admitted s := by
  unfold tickChange
  split
  · exact admitted_unchanged
  · exact admitted_poll

/-- Dialling changes nothing, or adds a peer who was not there. -/
theorem dialChange_cases : (dialChange s dial = unchanged s) ∨
    ∃ id key addr, dialChange s dial =
      ⟨{ s.federation with peers := s.federation.peers ++
        [⟨.established, some id, key, addr, dial.openedAtUnixNs⟩] }, [(id, key)]⟩ ∧
      id ∉ s.federation.peerIds ∧ id ≠ ownId s ∧
      ∀ pk, key = some pk → HelloSigned env.signatures id pk := by
  unfold dialChange
  rcases connectPeer_cases with ⟨hf, ho⟩ | ⟨id, addr, tip, key, v, ho, hid, hne, hsig, hf⟩
  · rw [hf]
    refine .inl (congrArg _ ?_)
    split
    · rfl
    · rename_i o hok
      rw [ho o hok]
      rfl
  · exact .inr ⟨id, key, addr, by rw [hf, ho]; rfl, hid, hne, hsig⟩

theorem admitted_dial : (dialChange s dial).Admitted s := by
  rcases dialChange_cases with h | ⟨id, key, addr, h, -, hne, hsig⟩
  · rw [h]
    exact admitted_unchanged
  · rw [h]
    refine .of_pinned (fun id' key' ha => ?_) fun hs p hp => ?_
    · cases List.mem_singleton.1 ha
      exact ⟨hne, hsig⟩
    · rcases List.mem_append.1 hp with hp | hp
      · exact hs p hp
      · cases List.mem_singleton.1 hp
        exact ⟨.inl ⟨rfl, rfl⟩, fun hc => hne (Option.some.inj hc), nofun⟩

theorem admitted_connect : (connectChange s dial request).Admitted s := by
  unfold connectChange
  split
  · exact admitted_dial
  · exact admitted_unchanged

theorem admitted_link : (linkChange s dial).Admitted s := by
  unfold linkChange
  split
  · exact admitted_unchanged
  · exact ⟨fun a ha => admitted_dial.other a (List.mem_of_mem_filter ha),
      fun id pk ha => admitted_dial.signed id pk (List.mem_of_mem_filter ha), admitted_dial.sane⟩

theorem admitted_openListener {bound : Except SubstrateError FederationListener} :
    (openListenerChange s bound request).Admitted s := by
  unfold openListenerChange
  split
  · refine ⟨nofun, nofun, fun hs => ?_⟩
    cases bound <;> exact hs
  · exact admitted_unchanged

theorem admitted_closeListener : (closeListenerChange s).Admitted s := ⟨nofun, nofun, id⟩

/-- The keys pinned after a poll are those pinned before and those it pins. -/
theorem pinnedKeys_pollChange (hs : ∀ p ∈ s.federation.peers, p.Sane (ownId s))
    {a : Hash32 × Option Hash32} (ha : a ∈ (pollChange s input).federation.pinnedKeys) :
    a ∈ s.federation.pinnedKeys ∨ a ∈ (pollChange s input).pinned := by
  have hkeys := @pinnedKeys_acceptPending s.federation input.accepted
  have hsane := @sane_acceptPending _ s.federation input.accepted hs
  unfold pollChange serve at ha ⊢
  split at ha
  · rename_i e f haccept
    rw [haccept] at hkeys
    exact .inl (hkeys ▸ ha)
  · rename_i accepted f haccept
    rw [haccept] at hkeys hsane
    rw [← hkeys]
    exact keys_progressPeers hsane ha

/-- Dialling leaves the keys as they are, or pins one for a peer who had none. -/
theorem pinnedKeys_dialChange {a : Hash32 × Option Hash32}
    (ha : a ∈ (dialChange s dial).federation.pinnedKeys) :
    a ∈ s.federation.pinnedKeys ∨
      a ∈ (dialChange s dial).pinned ∧ a.1 ∉ s.federation.peerIds := by
  rcases @dialChange_cases _ s dial with h | ⟨id, key, addr, h, hid, -⟩
  · rw [h] at ha
    exact .inl ha
  · rw [h] at ha ⊢
    rw [FederationState.pinnedKeys, List.filterMap_append] at ha
    rcases List.mem_append.1 ha with ha | ha
    · exact .inl ha
    · cases List.mem_singleton.1 ha
      exact .inr ⟨List.mem_singleton.2 rfl, hid⟩

end

end Myco.Federation
