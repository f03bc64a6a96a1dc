import Myco.Consensus.Handlers
import Myco.Federation.Changes

/-!
# Runs

A `Run` is a substrate taking one `Event` after the other: a call of a handler of federation or of
consensus, with its answer, or anything else that the substrate does, which appends nodes of other
types and leaves it the same party to its federation.

What an event does to federation is determined by the state before it: the `party` that it leaves,
the `change` in the connections and in who is pinned, and the `ballot` that is cast. `step_spec` says
that a step does this and no more.
-/

namespace Myco.Consensus

open Myco.Lib Myco.Canonical Myco.Schema Myco.Substrate Myco.Federation

variable {env : Env}

/-! ### Calls -/

inductive Call where
  | openListener (bound : Except SubstrateError FederationListener) (request : Message)
  | closeListener (request : Message)
  | connectPeer (dial : Dial) (request : Message)
  | linkToParent (dial : Dial) (request : Message)
  | poll (input : PollInput) (request : Message)
  | tick (input : PollInput)
  | revoke (revocation : Revocation)
  | propose (request : Message)
  | submit (request : Message)
  | query (request : Message)
  | restart (acceptLegacyPeers : Bool)

/-- Boots again: the connections are gone, and the revoked peers are read back from the log. -/
def reboot (acceptLegacyPeers : Bool) (s : ServerState env) : ServerState env :=
  { s with
    federation := .new acceptLegacyPeers
    revokedFederationPeers := deriveRevokedFederationPeersFromDag s.nodes }

def Call.run : Call → Handler env (Option Message)
  | .openListener bound request => handleFederationOpenListener bound request
  | .closeListener request => handleFederationCloseListener request
  | .connectPeer dial request => handleFederationConnectPeer dial request
  | .linkToParent dial request => handleFederationLinkToParentFromHint dial request
  | .poll input request => handleFederationPoll input request
  | .tick input => do
    tickFederation input
    pure none
  | .revoke revocation => do
    let _ ← emitFederationPeerRevoked revocation
    pure none
  | .propose request => handleFederationProposePopulationClaim request
  | .submit request => handleFederationSubmitPeerVote request
  | .query request => handleFederationQueryConsensus request
  | .restart acceptLegacyPeers => do
    modify (reboot acceptLegacyPeers)
    pure none

/-! ### Events -/

abbrev Answer := Except SubstrateError (Option Message)

inductive Event where
  | call (c : Call) (answer : Answer)
  | other

inductive Step : ServerState env → Event → ServerState env → Prop
  | call {s t : ServerState env} {c : Call} {answer : Answer} :
      c.run.exec s = some (answer, t) → Step s (.call c answer) t
  | other {s t : ServerState env} : Adds Plain s t → Step s .other t

abbrev Run : ServerState env → List Event → ServerState env → Prop := Path Step

/-- A substrate that has not met anybody. -/
structure Fresh (s : ServerState env) : Prop where
  peers : s.federation.peers = []
  plain : ∀ n ∈ s.nodes, Plain n

namespace Event

def change (s : ServerState env) : Event → Change
  | .call (.openListener bound request) _ => openListenerChange s bound request
  | .call (.closeListener _) _ => closeListenerChange s
  | .call (.connectPeer dial request) _ => connectChange s dial request
  | .call (.linkToParent dial _) _ => linkChange s dial
  | .call (.poll input _) _ => pollChange s input
  | .call (.tick input) _ => tickChange s input
  | .call (.restart acceptLegacyPeers) _ => ⟨.new acceptLegacyPeers, []⟩
  | _ => unchanged s

def revoked (s : ServerState env) : Event → List Hash32
  | .call (.revoke r) (.ok _) =>
    if r.revokedPeerSubstrateId ∈ s.revokedFederationPeers then s.revokedFederationPeers
    else r.revokedPeerSubstrateId :: s.revokedFederationPeers
  | .call (.restart _) _ => deriveRevokedFederationPeersFromDag s.nodes
  | _ => s.revokedFederationPeers

def party (s : ServerState env) (e : Event) :
    FederationState × List Hash32 × Option Hash32 × Hash32 :=
  ((e.change s).federation, e.revoked s, s.substrateId, s.substrateSigningSeed)

/-- The vote that is cast. -/
def ballot (s : ServerState env) : Event → Option DecodedPopulationVote
  | .call (.propose request) _ => proposedVote s request
  | .call (.submit request) _ => submittedVote s request
  | _ => none

end Event

/-- What an event may append: pins of those it admits, the vote that it casts, and certificates when
it casts one. -/
structure Logged (s : ServerState env) (e : Event) (n : DagNode) : Prop where
  pin : ∀ id pk, pinOf n = some (id, pk) → (id, some pk) ∈ (e.change s).pinned
  vote : ∀ claimType v, voteOf claimType n = some v → e.ballot s = some v ∧ v.claimType = claimType
  cert : e.ballot s = none → ∀ claimType ch, certOn claimType ch n = none

/-! ### What a step does -/

section

variable {s t : ServerState env} {e : Event} {n : DagNode}

theorem logged_of_none (hp : pinOf n = none) (hv : ∀ ct, voteOf ct n = none)
    (hc : e.ballot s = none → ∀ ct ch, certOn ct ch n = none) : Logged s e n := by
  refine ⟨fun id pk h => ?_, fun ct v h => ?_, hc⟩
  · rw [hp] at h
    cases h
  · rw [hv ct] at h
    cases h

theorem Plain.logged (h : Plain n) : Logged s e n := logged_of_none h.pin h.vote fun _ => h.cert

theorem logged_of_pins (h : Pins (e.change s).pinned n) : Logged s e n := by
  rcases h with h | ⟨⟨id, key, hmem, hpin⟩, hvote, hcert⟩
  · exact h.logged
  · refine ⟨fun id' pk hp => ?_, fun ct v hv => ?_, fun _ => hcert⟩
    · rw [hpin] at hp
      obtain ⟨pk', rfl, heq⟩ := Option.map_eq_some_iff.1 hp
      cases heq
      exact hmem
    · rw [hvote ct] at hv
      cases hv

theorem Casts.pinOf_eq {vote : DecodedPopulationVote} (h : Casts vote n) : pinOf n = none :=
  pinOf_eq_none (h.nodeType ▸ startsWith_append) (p := populationVotePrefix) (by decide)

theorem Casts.eq_of_voteOf {vote v : DecodedPopulationVote} {ct : String} (h : Casts vote n)
    (hv : voteOf ct n = some v) : v = vote ∧ vote.claimType = ct := by
  unfold voteOf at hv
  split at hv
  · rename_i ht
    rw [h.content] at hv
    cases hv
    rw [h.nodeType] at ht
    exact ⟨rfl, (String.append_right_inj _).1 ht⟩
  · cases hv

theorem Casts.logged {vote : DecodedPopulationVote} (h : Casts vote n)
    (hb : e.ballot s = some vote) : Logged s e n := by
  refine ⟨fun id pk hp => ?_, fun ct v hv => ?_, fun hnone => ?_⟩
  · rw [h.pinOf_eq] at hp
    cases hp
  · obtain ⟨rfl, rfl⟩ := h.eq_of_voteOf hv
    exact ⟨hb, rfl⟩
  · rw [hb] at hnone
    cases hnone

/-- A recheck appends nothing that is a pin or a vote. -/
theorem recheck_logged {claimType : String} {ch : Hash32} {payload : Bytes} {round : UInt64}
    {r : Except SubstrateError (Option NodeHash)}
    (h : (recheckQuorumAndMaybeEmitCert claimType ch payload round).exec s = some (r, t)) :
    t.party = s.party ∧ ∃ ns, t.nodes = s.nodes ++ ns ∧
      ∀ n ∈ ns, pinOf n = none ∧ ∀ ct, voteOf ct n = none := by
  obtain ⟨hp, ⟨hash, k, -, -, rfl⟩ | ⟨-, ws, hws, ⟨hn, -⟩ | ⟨c, hn, -, hc⟩⟩⟩ := recheck_cases h
  · exact ⟨rfl, [], by simp⟩
  · exact ⟨hp, ws, hn, fun n hm => ⟨(hws n hm).pin, (hws n hm).vote⟩⟩
  · refine ⟨hp, ws ++ [c], by rw [hn, List.append_assoc], fun n hm => ?_⟩
    rcases List.mem_append.1 hm with hm | hm
    · exact ⟨(hws n hm).pin, (hws n hm).vote⟩
    · rw [List.mem_singleton.1 hm]
      exact ⟨hc.pinOf_eq, hc.voteOf_eq⟩

theorem voting_logged {vote : DecodedPopulationVote} {r : Except SubstrateError (Option NodeHash)}
    (h : Voting s vote r t) (hb : e.ballot s = some vote) : t.party = s.party ∧
    ∃ ns, t.nodes = s.nodes ++ ns ∧ ∀ n ∈ ns, Logged s e n := by
  cases h with
  | failed hp hn => exact ⟨hp, [], by simp [hn], by simp⟩
  | rechecked hrec hre =>
    obtain ⟨hp, ns, hn, hns⟩ := recheck_logged hre
    refine ⟨hp.trans hrec.party, ?_⟩
    have hcert : ∀ n : DagNode, e.ballot s = none → ∀ ct ch, certOn ct ch n = none := by
      intro n hnone
      rw [hb] at hnone
      cases hnone
    have hrest : ∀ n ∈ ns, Logged s e n := fun n hm =>
      logged_of_none (hns n hm).1 (hns n hm).2 (hcert n)
    rcases hrec.nodes with ⟨-, hu⟩ | ⟨n, hu, hcast⟩
    · exact ⟨ns, by rw [hn, hu], hrest⟩
    · refine ⟨n :: ns, by rw [hn, hu, List.append_assoc]; rfl, ?_⟩
      rw [List.forall_mem_cons]
      exact ⟨hcast.logged hb, hrest⟩

/-- The event does to federation what it says, and appends what it may. -/
structure Does (s : ServerState env) (e : Event) (t : ServerState env) : Prop where
  party : t.party = e.party s
  nodes : ∃ ns, t.nodes = s.nodes ++ ns ∧ ∀ n ∈ ns, Logged s e n

theorem does_of_changes (h : Changes (e.change s) s t)
    (hr : e.revoked s = s.revokedFederationPeers) : Does s e t := by
  obtain ⟨⟨ns, hn, hns⟩, hp⟩ := h
  refine ⟨?_, ns, hn, fun n hm => logged_of_pins (hns n hm)⟩
  rw [hp, Event.party, hr]
  rfl

theorem does_of_same (hc : e.change s = unchanged s) (hr : e.revoked s = s.revokedFederationPeers)
    (h : t.party = s.party ∧ ∃ ns, t.nodes = s.nodes ++ ns ∧ ∀ n ∈ ns, Logged s e n) :
    Does s e t := by
  refine ⟨?_, h.2⟩
  rw [h.1, Event.party, hc, hr]
  rfl

theorem does_nothing (hc : e.change s = unchanged s)
    (hr : e.revoked s = s.revokedFederationPeers) : Does s e s :=
  does_of_same hc hr ⟨rfl, [], by simp⟩

theorem revoke_does {revocation : Revocation} {answer : Answer}
    (h : (Call.run (.revoke revocation)).exec s = some (answer, t)) :
    Does s (.call (.revoke revocation) answer) t := by
  simp only [Call.run] at h
  rw [emitFederationPeerRevoked] at h
  have hplain : ∀ n : DagNode, n.nodeType = federationPeerRevokedNodeType
      revocation.revokedPeerSubstrateId → Plain n := fun n hn =>
    plain_of_startsWith (p := federationPeerRevokedPrefix) (hn ▸ startsWith_append)
      (by unfold PlainPrefix; decide)
  by_cases hrev : revocation.revokedPeerSubstrateId ∈ s.revokedFederationPeers
  · rw [Prog.exec_bind, Prog.exec_get_bind, if_pos hrev] at h
    cases h
    exact does_nothing rfl (if_pos hrev)
  · rw [Prog.exec_bind, Prog.exec_get_bind, if_neg hrev, Prog.exec_bind] at h
    cases hemit : (emitSubstrateEvent
        (federationPeerRevokedNodeType revocation.revokedPeerSubstrateId)
        (encodeFederationPeerRevoked revocation) : Handler env NodeHash).exec s with
    | none =>
      rw [hemit] at h
      cases h
    | some p =>
      obtain ⟨r, u⟩ := p
      rw [hemit] at h
      obtain ⟨hp, ⟨e', rfl, hn⟩ | ⟨n, rfl, hn, ht, -⟩⟩ := emitSubstrateEvent_cases hemit
      · cases h
        exact does_of_same rfl rfl ⟨hp, [], by simp [hn], by simp⟩
      · cases h
        refine ⟨?_, [n], hn, fun m hm => ?_⟩
        · have hid : u.substrateId = s.substrateId := congrArg (fun x => x.2.2.1) hp
          simp only [Event.party, Event.revoked, if_neg hrev, Event.change, unchanged,
            ServerState.party, federation_eq hp, revoked_eq hp, signingSeed_eq hp, hid]
        · rw [List.mem_singleton.1 hm]
          exact (hplain n ht).logged

theorem query_does {request : Message} {answer : Answer}
    (h : (handleFederationQueryConsensus request).exec s = some (answer, t)) : t = s := by
  rw [handleFederationQueryConsensus, Prog.exec_bind, exec_raise, Option.bind_some] at h
  cases htype : requireClaimType env request with
  | error e =>
    rw [htype] at h
    cases h
    rfl
  | ok claimType =>
    rw [htype] at h
    dsimp only at h
    rw [Prog.exec_bind, exec_raise, Option.bind_some, requireBlob] at h
    cases hblob : blob? request.payload "claim_payload" with
    | none =>
      rw [hblob] at h
      cases h
      rfl
    | some payload =>
      rw [hblob] at h
      cases h
      rfl

theorem step_does (h : Step s e t) : Does s e t := by
  cases h with
  | other h =>
    obtain ⟨⟨ns, hn, hns⟩, hp⟩ := h
    exact does_of_same rfl rfl ⟨hp, ns, hn, fun n hm => (hns n hm).logged⟩
  | @call _ c answer h =>
    cases c with
    | openListener bound request => exact does_of_changes (openListener_changes h) rfl
    | closeListener request => exact does_of_changes (closeListener_changes h) rfl
    | connectPeer dial request => exact does_of_changes (connect_changes h) rfl
    | linkToParent dial request => exact does_of_changes (link_changes h) rfl
    | poll input request => exact does_of_changes (poll_changes h) rfl
    | tick input =>
      rcases Prog.exec_bind_eq_some.1 h with ⟨e, h1, -⟩ | ⟨_, u, h1, h2⟩
      · exact does_of_changes (tick_changes h1) rfl
      · cases h2
        exact does_of_changes (tick_changes h1) rfl
    | revoke revocation => exact revoke_does h
    | propose request =>
      rcases propose_cases h with ⟨-, rfl, -⟩ | ⟨vote, rc, hb, hv, -⟩
      · exact does_nothing rfl rfl
      · exact does_of_same rfl rfl (voting_logged hv hb)
    | submit request =>
      rcases submit_cases h with ⟨-, rfl, -⟩ | ⟨vote, rc, hb, hv, -⟩
      · exact does_nothing rfl rfl
      · exact does_of_same rfl rfl (voting_logged hv hb)
    | query request =>
      rw [query_does h]
      exact does_nothing rfl rfl
    | restart acceptLegacyPeers =>
      cases h
      exact ⟨rfl, [], by simp [ServerState.nodes, reboot], by simp⟩

/-- The state and the answer of a call leave one state to end in. -/
theorem call_unique {u : ServerState env} {c : Call} {answer : Answer} (h : Step s (.call c answer) t)
    (h' : Step s (.call c answer) u) : u = t := by
  cases h with
  | call h =>
    cases h' with
    | call h' =>
      rw [h] at h'
      cases h'
      rfl

theorem Event.admitted : (e.change s).Admitted s := by
  rcases e with ⟨c, answer⟩ | _
  · cases c with
    | openListener bound request => exact admitted_openListener
    | closeListener request => exact admitted_closeListener
    | connectPeer dial request => exact admitted_connect
    | linkToParent dial request => exact admitted_link
    | poll input request => exact admitted_poll
    | tick input => exact admitted_tick
    | restart acceptLegacyPeers => exact ⟨nofun, nofun, fun _ => nofun⟩
    | revoke revocation => exact admitted_unchanged
    | propose request => exact admitted_unchanged
    | submit request => exact admitted_unchanged
    | query request => exact admitted_unchanged
  · exact admitted_unchanged

end

/-! ### What every run keeps -/

/-- Every vote is filed under the class of its claim. -/
def Filed (s : ServerState env) : Prop :=
  ∀ n ∈ s.nodes, ∀ claimType v, voteOf claimType n = some v → v.claimType = claimType

section

variable {s t : ServerState env} {e : Event} {es : List Event}

theorem Does.federation_eq (h : Does s e t) : t.federation = (e.change s).federation :=
  congrArg Prod.fst h.party

theorem Does.revoked_eq (h : Does s e t) : t.revokedFederationPeers = e.revoked s :=
  congrArg (fun x => x.2.1) h.party

theorem Does.ownId_eq (h : Does s e t) : ownId t = ownId s :=
  congrArg (fun x => x.2.2.1.getD (.replicate 0)) h.party

theorem Filed.step (hs : Filed s) (h : Step s e t) : Filed t := by
  obtain ⟨ns, hn, hns⟩ := (step_does h).nodes
  intro n hm ct v hv
  rw [hn] at hm
  rcases List.mem_append.1 hm with hm | hm
  · exact hs n hm ct v hv
  · exact ((hns n hm).vote ct v hv).2

theorem Fresh.filed (hs : Fresh s) : Filed s := by
  intro n hn ct v hv
  rw [(hs.plain n hn).vote ct] at hv
  cases hv

theorem filed_of_run (hs : Fresh s) (h : Run s es t) : Filed t :=
  h.keeps (fun _ _ _ hstep hf => hf.step hstep) hs.filed

theorem sane_of_run (hs : Fresh s) (h : Run s es t) :
    ∀ p ∈ t.federation.peers, p.Sane (ownId t) := by
  refine h.keeps (I := fun t => ∀ p ∈ t.federation.peers, p.Sane (ownId t)) ?_ ?_
  · intro u e v hstep hu
    have hd := step_does hstep
    rw [hd.federation_eq, hd.ownId_eq]
    exact Event.admitted.sane hu
  · rw [hs.peers]
    exact nofun

theorem Filed.votesOn (hs : Filed s) {claimType : String} {ch : Hash32} {round : UInt64}
    {v : DecodedPopulationVote} (h : v ∈ votesOn s claimType ch round) :
    v.claimType = claimType ∧ v.claimHash = ch ∧ v.roundId = round := by
  obtain ⟨h, hround⟩ := List.mem_filter.1 h
  obtain ⟨h, hch⟩ := List.mem_filter.1 h
  obtain ⟨n, hn, hv⟩ := List.mem_filterMap.1 h
  exact ⟨hs n hn _ _ hv, by simpa using hch, by simpa using hround⟩

/-- Every entry of the certificate that a recheck mints is verified. -/
theorem verifiedVoters_certOf (hs : Filed s) {claimType : String} {ch : Hash32} {payload : Bytes}
    {round : UInt64} {n f : Nat} {pins : List (Hash32 × Hash32)} :
    verifiedVoters env (certOf claimType ch payload round n f
      (collectCertVotes s claimType ch round pins)) (resolvePubkey s pins) =
        tallied s claimType ch round pins := by
  rw [← collectCertVotes_voters, verifiedVoters]
  congr 1
  refine List.filter_eq_self.2 fun e he => ?_
  obtain ⟨v, hv, hver, rfl⟩ := mem_collectCertVotes he
  obtain ⟨rfl, rfl, rfl⟩ := hs.votesOn hv
  exact hver

end

/-! ### Runs of given calls -/

theorem fresh_stateOf : Fresh (stateOf env []) where
  peers := rfl
  plain n hn := nomatch (hn : n ∈ ([] : List DagNode))

/-- Makes the calls in turn, unless the process stops. -/
def runCalls : ServerState env → List Call → Option (List Event × ServerState env)
  | s, [] => some ([], s)
  | s, c :: cs =>
    (c.run.exec s).bind fun (answer, t) =>
      (runCalls t cs).map fun (es, u) => (.call c answer :: es, u)

theorem run_of_runCalls {cs : List Call} {s t : ServerState env} {es : List Event}
    (h : runCalls s cs = some (es, t)) : Run s es t := by
  induction cs generalizing s es with
  | nil =>
    cases h
    exact .nil
  | cons c cs ih =>
    rw [runCalls, Option.bind_eq_some_iff] at h
    obtain ⟨⟨answer, u⟩, hu, h⟩ := h
    obtain ⟨⟨fs, v⟩, hv, h⟩ := Option.map_eq_some_iff.1 h
    cases h
    exact .cons (.call hu) (ih hv)

/-! ### A peer with two keys -/

def peerId : Hash32 := .replicate 1

def oldKey : Hash32 := .replicate 2

def newKey : Hash32 := .replicate 3

def helloMessage : Bytes := buildFedHelloSigningMessage peerId none 1

/-- Both keys have signed a hello of the peer. -/
def twoKeysEnv : Env := keyedEnv [(oldKey, helloMessage), (newKey, helloMessage)]

/-- A hello under `pk`, whose signature is the `n`th. -/
def helloUnder (pk : Hash32) (n : UInt8) : Message :=
  ⟨"fed_hello", 1, OrdMap.ofList utf8 [("peer_substrate_id", hashValue peerId),
    ("protocol_version", .uint 1), ("signer_pubkey", hashValue pk),
    ("hello_signature", .bytes (signatureNo n).bytes)]⟩

/-- Somebody connects and says this hello. -/
def greeting (hello : Message) : Call :=
  .poll ⟨⟨[("a:1", 0)], none⟩, ⟨fun _ => ⟨.ok (some hello), .ok ()⟩, fun _ => ⟨.ok none, .ok ()⟩⟩⟩
    ⟨"federation_poll", 2, []⟩

def listening : Call :=
  .openListener (.ok ⟨"0.0.0.0:7000", 0⟩)
    ⟨"federation_open_listener", 1, [("bind_addr", .string "0.0.0.0:7000")]⟩

end Myco.Consensus
