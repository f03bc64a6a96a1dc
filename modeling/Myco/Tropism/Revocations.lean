import Myco.Consensus.Run
import Myco.Federation.Repull
import Myco.Tropism.Mutations

/-!
# Revoking a peer

What a substrate makes of a revoked peer (`Shunned`), and what becomes of a `revoke_federation_peer`
that it has accepted. The worker accepts it and the substrate records it, but nothing puts its
target among the revoked peers: it is shunned ever after exactly if it was before
(`revocation_takes_effect_iff`).
-/

namespace Myco.Tropism

open Myco.Lib Myco.Canonical Myco.Schema Myco.Substrate Myco.Federation Myco.Consensus

variable {env : Env} {rt : Runtime}

/-! ### Shunning -/

/-- Nothing goes to the peer and nothing comes from it, and it does not count. -/
structure Shunned (p : Hash32) (s : ServerState env) : Prop where
  revoked : p ∈ s.revokedFederationPeers
  /-- no poll sends it events -/
  unserved : ∀ input n events f, serve s input = (.ok (n, events), f) →
    ∀ hashes, .eventsSent p hashes ∉ events
  /-- no pull from it leaves an event -/
  uningested : ∀ wire request r t, bytes32? request.payload "peer_substrate_id" = some p →
    (handleFederationPullEventsFromPeer wire request).exec s = some (r, t) →
    wrappersOf t.nodes = wrappersOf s.nodes
  /-- it is none of those that `peer_set_size_n` counts -/
  uncounted : p ∉ liveNonRevoked s
  /-- no key verifies a vote of it -/
  keyless : resolvePubkey s (derivePinnedSignerPubkeys s) p = none

section

variable {s t : ServerState env} {p : Hash32}

theorem eventsSent_of_progress {wires : Nat → Wire} {f : FederationState} {hashes : List Hash32}
    {dag : Dag} {revoked : List Hash32}
    (h : .eventsSent p hashes ∈ (f.progress (progressEstablished env.blake3 dag revoked) wires).1) :
    p ∉ revoked := by
  obtain ⟨turn, ht, he⟩ := List.mem_flatMap.1 h
  obtain ⟨i, hi, rfl⟩ := List.mem_mapIdx.1 ht
  unfold progressEstablished at he
  split at he
  · rename_i peerId _ _
    split at he
    · simp [Turn.failed] at he
    · simp [Turn.unchanged] at he
    · split at he
      · simp [Turn.unchanged] at he
      · split at he
        · simp at he
        · rename_i hrev
          split at he
          · simp at he
          · dsimp only at he
            split at he
            · simp [Turn.failed] at he
            · simp only [List.mem_singleton, PollPeerEvent.eventsSent.injEq] at he
              rw [he.1]
              exact hrev
  · simp [Turn.unchanged] at he

/-- The turns of those who wait for a hello send nothing. -/
theorem not_eventsSent_progressHello {signatures : Signatures} {legacy : Bool} {id : Hash32}
    {w : Wire} {c : PeerConnection} {hashes : List Hash32} :
    .eventsSent p hashes ∉ (progressHello signatures legacy id w c).events := by
  unfold progressHello
  split
  · simp [Turn.unchanged]
  · split
    · simp [Turn.failed]
    · simp [Turn.unchanged]
    · split
      · simp [Turn.failed]
      · split
        · simp [Turn.failed]
        · unfold greet
          split
          · simp [Turn.failed]
          · split
            · simp [Turn.failed]
            · split
              · simp [Turn.failed]
              · split
                · simp [Turn.failed]
                · simp

theorem unserved_of_revoked (h : p ∈ s.revokedFederationPeers) (input : PollInput) (n : Nat)
    (events : List PollPeerEvent) (f : FederationState)
    (hs : serve s input = (.ok (n, events), f)) (hashes : List Hash32) :
    .eventsSent p hashes ∉ events := by
  intro hmem
  unfold serve at hs
  split at hs
  · cases hs
  · simp only [Prod.mk.injEq, Except.ok.injEq] at hs
    obtain ⟨⟨-, rfl⟩, -⟩ := hs
    rcases List.mem_append.1 hmem with hm | hm
    · obtain ⟨turn, ht, he⟩ := List.mem_flatMap.1 hm
      obtain ⟨i, hi, rfl⟩ := List.mem_mapIdx.1 ht
      exact not_eventsSent_progressHello he
    · exact eventsSent_of_progress hm h

theorem uningested_of_revoked (h : p ∈ s.revokedFederationPeers) (wire : PullWire)
    (request : Message) (r : Except SubstrateError (Option Message))
    (t : ServerState env) (hp : bytes32? request.payload "peer_substrate_id" = some p)
    (ht : (handleFederationPullEventsFromPeer wire request).exec s = some (r, t)) :
    wrappersOf t.nodes = wrappersOf s.nodes := by
  rcases pull_cases ht with ⟨hadds, -⟩ | ⟨id, batch, hid, hrev, -⟩
  · exact wrappersOf_adds hadds
  · rw [hp] at hid
    cases hid
    exact absurd h hrev

/-- A revoked peer is shunned, unless it is the substrate itself. -/
theorem shunned_iff : Shunned p s ↔ p ∈ s.revokedFederationPeers ∧ p ≠ ownId s := by
  constructor
  · intro h
    refine ⟨h.revoked, fun hown => ?_⟩
    have hkey := h.keyless
    rw [resolvePubkey, if_pos hown] at hkey
    cases hkey
  · rintro ⟨hrev, hown⟩
    refine ⟨hrev, unserved_of_revoked hrev, uningested_of_revoked hrev, fun hlive => ?_, ?_⟩
    · have hmem := (List.mem_filter.1 (List.mem_toFinset.1 hlive)).2
      simp [hrev] at hmem
    · rw [resolvePubkey, if_neg hown]
      exact get_pinsOf.trans (if_pos hrev)

end

/-! ### The set and the log -/

/-- The revoked peers are those that the log revokes, as after a boot. -/
def Booted (s : ServerState env) : Prop :=
  s.revokedFederationPeers = deriveRevokedFederationPeersFromDag s.nodes

/-- Who is revoked is revoked in the log. -/
def RevokedInLog (s : ServerState env) : Prop :=
  ∀ p ∈ s.revokedFederationPeers, p ∈ deriveRevokedFederationPeersFromDag s.nodes

section

variable {s t : ServerState env} {p : Hash32} {e : Event} {es : List Event}

theorem revocationOf_encode {r : Revocation} {n : DagNode}
    (ht : n.nodeType = federationPeerRevokedNodeType r.revokedPeerSubstrateId)
    (hc : n.content = encodeFederationPeerRevoked r)
    (hmem : (encodeFederationPeerRevoked r).length ≤ isizeMax) :
    revocationOf n = some r.revokedPeerSubstrateId := by
  rw [revocationOf, if_pos (ht ▸ startsWith_append), hc, decodeFederationPeerRevokedTarget,
    encodeFederationPeerRevoked]
  rw [encodeFederationPeerRevoked] at hmem
  rw [decodeMap?_cbEncode hmem (by simp [Value.WF, hashValue])]
  simp [bytes32?, get_mapOf, OrdMap.get_cons, hashValue, r.revokedPeerSubstrateId.length_eq]

theorem derive_append {ns ms : List DagNode} (h : p ∈ deriveRevokedFederationPeersFromDag ns) :
    p ∈ deriveRevokedFederationPeersFromDag (ns ++ ms) := by
  rw [deriveRevokedFederationPeersFromDag, List.filterMap_append]
  exact List.mem_append_left _ h

/-- Whoever is revoked by a call is revoked in the log from then on. -/
theorem revoke_logged {r : Revocation} {a : Option Message} (hs : RevokedInLog s)
    (h : (Call.run (.revoke r)).exec s = some (.ok a, t)) : RevokedInLog t := by
  simp only [Call.run] at h
  rw [emitFederationPeerRevoked] at h
  by_cases hrev : r.revokedPeerSubstrateId ∈ s.revokedFederationPeers
  · rw [Prog.exec_bind, Prog.exec_get_bind, if_pos hrev] at h
    cases h
    exact hs
  · rw [Prog.exec_bind, Prog.exec_get_bind, if_neg hrev, Prog.exec_bind] at h
    cases hemit : (emitSubstrateEvent
        (federationPeerRevokedNodeType r.revokedPeerSubstrateId)
        (encodeFederationPeerRevoked r) : Handler env NodeHash).exec s with
    | none =>
      rw [hemit] at h
      cases h
    | some q =>
      obtain ⟨x, u⟩ := q
      rw [hemit] at h
      obtain ⟨hp, ⟨e', rfl, -⟩ | ⟨n, rfl, hn, ht, hc, hmem⟩⟩ := emitSubstrateEvent_cases hemit
      · cases h
      · cases h
        intro p hp'
        show p ∈ deriveRevokedFederationPeersFromDag u.nodes
        rw [hn]
        rcases List.mem_cons.1 hp' with rfl | hold
        · rw [deriveRevokedFederationPeersFromDag, List.filterMap_append]
          refine List.mem_append_right _ ?_
          simp [revocationOf_encode ht hc hmem]
        · exact derive_append (hs p (revoked_eq hp ▸ hold))

theorem revoked_of_ne (h : ∀ r, ∀ a, e ≠ .call (.revoke r) (.ok a)) :
    e.revoked s = s.revokedFederationPeers ∨
    e.revoked s = deriveRevokedFederationPeersFromDag s.nodes := by
  rcases e with ⟨c, answer⟩ | _
  · cases c with
    | revoke r =>
      cases answer with
      | ok a => exact absurd rfl (h r a)
      | error _ => exact .inl rfl
    | restart _ => exact .inr rfl
    | openListener _ _ => exact .inl rfl
    | closeListener _ => exact .inl rfl
    | connectPeer _ _ => exact .inl rfl
    | linkToParent _ _ => exact .inl rfl
    | poll _ _ => exact .inl rfl
    | tick _ => exact .inl rfl
    | propose _ => exact .inl rfl
    | submit _ => exact .inl rfl
    | query _ => exact .inl rfl
  · exact .inl rfl

theorem RevokedInLog.step (hs : RevokedInLog s) (h : Step s e t) : RevokedInLog t := by
  by_cases hrev : ∃ r a, e = .call (.revoke r) (.ok a)
  · obtain ⟨r, a, rfl⟩ := hrev
    cases h with
    | call h => exact revoke_logged hs h
  · have hd := step_does h
    obtain ⟨ns, hn, -⟩ := hd.nodes
    intro p hp
    rw [hd.revoked_eq] at hp
    rw [hn]
    rcases revoked_of_ne (s := s) fun r a he => hrev ⟨r, a, he⟩ with he | he
    · exact derive_append (hs p (he ▸ hp))
    · exact derive_append (he ▸ hp)

/-- Nobody is taken off the set, not even by a restart. -/
theorem revoked_step (hs : RevokedInLog s) (h : Step s e t) (hp : p ∈ s.revokedFederationPeers) :
    p ∈ t.revokedFederationPeers := by
  rw [(step_does h).revoked_eq]
  by_cases hrev : ∃ r a, e = .call (.revoke r) (.ok a)
  · obtain ⟨r, a, rfl⟩ := hrev
    rw [Event.revoked]
    split
    · exact hp
    · exact List.mem_cons_of_mem _ hp
  · rcases revoked_of_ne (s := s) fun r a he => hrev ⟨r, a, he⟩ with he | he
    · exact he ▸ hp
    · exact he ▸ hs p hp

theorem revokedInLog_of_run (hs : RevokedInLog s) (h : Run s es t) : RevokedInLog t :=
  h.keeps (fun _ _ _ hstep hu => hu.step hstep) hs

theorem revoked_of_run (hs : RevokedInLog s) (h : Run s es t) (hp : p ∈ s.revokedFederationPeers) :
    p ∈ t.revokedFederationPeers :=
  (h.keeps (I := fun u => RevokedInLog u ∧ p ∈ u.revokedFederationPeers)
    (fun _ _ _ hstep hu => ⟨hu.1.step hstep, revoked_step hu.1 hstep hu.2⟩) ⟨hs, hp⟩).2

theorem ownId_of_run (h : Run s es t) : ownId t = ownId s :=
  h.keeps (I := fun u => ownId u = ownId s)
    (fun _ _ _ hstep hu => (step_does hstep).ownId_eq.trans hu) rfl

end

/-! ### Submitting a revocation -/

/-- What federation and consensus read. -/
def federation : Watch where
  texts := cultivationTexts ++ [federationPeerPinnedPrefix, populationVotePrefix,
    populationConsensusReachedPrefix, federationPeerRevokedPrefix]
  View := FederationState × List Hash32 × Option Hash32 × Hash32
  see := Settings.party
  uncommon := by decide
  cultivation := by decide

theorem heedless_federation : federation.Heedless := ⟨by decide, fun _ _ => rfl, fun _ _ => rfl⟩

theorem sedentary_federation : federation.Sedentary := ⟨by decide, fun _ _ => rfl⟩

theorem Aside.plain {s t : ServerState env} (h : Aside federation s t) : Adds Plain s t := by
  obtain ⟨ns, hn, hns⟩ := h.nodes
  refine ⟨⟨ns, hn, fun n hm => ?_⟩, h.see⟩
  have hne : ∀ q ∈ [federationPeerPinnedPrefix, populationVotePrefix,
      populationConsensusReachedPrefix], ¬ startsWith q n.nodeType := by
    refine fun q hq hs => hns n hm ⟨q, List.mem_append_right _ ?_, hs⟩
    exact List.mem_append_left [federationPeerRevokedPrefix] hq
  refine ⟨if_neg (hne _ (by simp)), fun ct => if_neg fun hc => ?_, fun ct ch => if_neg fun hc => ?_⟩
  · exact hne populationVotePrefix (by simp) (hc ▸ startsWith_append)
  · exact hne populationConsensusReachedPrefix (by simp) (hc ▸ startsWith_append)

variable {h h' : Host env rt} {request : Message} {p : Hash32}

/-- The substrate answers a `revoke_federation_peer` of `p` that it has accepted. -/
structure AcceptsRevocation (h : Host env rt) (request : Message) (p : Hash32) (h' : Host env rt) :
    Prop where
  mutationType : earlyMutationType request = "revoke_federation_peer"
  target : ((blob? request.payload "content_canonical_bytes").bind decodeRevokeFederationPeer).map
    RevocationBody.revokedPeerSubstrateId = some p
  accepted : ∃ reply, (handleSubmitMutationRequest request).exec h = some (.ok (some reply), h') ∧
    OrdMap.get "accepted" reply.payload = some (.bool true)

/-- To federation, a submission is something else that the substrate does. -/
theorem AcceptsRevocation.step (ha : AcceptsRevocation h request p h') :
    Step h.server .other h'.server := by
  obtain ⟨reply, he, -⟩ := ha.accepted
  exact .other (spares_handleSubmitMutation heedless_federation sedentary_federation _ _ _ he).plain

/-- A peer whose revocation is accepted is shunned from then on, restarts included, exactly if it
had been revoked before and is not the substrate itself. -/
theorem revocation_takes_effect_iff {b : ServerState env} {es : List Event} (hb : Booted b)
    (hes : Run b es h.server) (ha : AcceptsRevocation h request p h') :
    (∀ fs t, Run h'.server fs t → Shunned p t) ↔
      p ∈ h.server.revokedFederationPeers ∧ p ≠ ownId h.server := by
  have hlog : RevokedInLog h.server := revokedInLog_of_run (fun q hq => hb ▸ hq) hes
  have hstep := ha.step
  have hd := step_does hstep
  have hsame : h'.server.revokedFederationPeers = h.server.revokedFederationPeers := hd.revoked_eq
  constructor
  · intro hall
    have hnow := shunned_iff.1 (hall [] h'.server .nil)
    exact ⟨hsame ▸ hnow.1, hd.ownId_eq ▸ hnow.2⟩
  · rintro ⟨hrev, hown⟩ fs t hrun
    have hrev' : p ∈ h'.server.revokedFederationPeers := hsame.symm ▸ hrev
    refine shunned_iff.2 ⟨revoked_of_run (hlog.step hstep) hrun hrev', ?_⟩
    rw [ownId_of_run hrun, hd.ownId_eq]
    exact hown

/-! ### A revocation that is accepted -/

section

def revokedPeer : Hash32 := .replicate 7

def revocationBody : Bytes :=
  cbEncode [("domain", .string revokeFederationPeerDomain),
    ("revoked_peer_substrate_id", hashValue revokedPeer), ("revoked_pubkey", hashValue revokedPeer),
    ("reason", .string ""), ("anchor_timestamp_unix_seconds", .uint 0)]

def mutationRequest (mutationType : String) (content : Bytes) : Message :=
  ⟨"submit_mutation", 1, OrdMap.ofList utf8 [("mutation_type", .string mutationType),
    ("content_canonical_bytes", .bytes content), ("touched_fields", .array []),
    ("touched_files", .array []), ("touched_meta_structures", .array [])]⟩

/-- A substrate that has only just booted, and its worker. -/
def newHost (env : Env) (rt : Runtime) : Host env rt := ⟨stateOf env [], some .fresh⟩

def acceptedReply? {env : Env} {rt : Runtime}
    (p : Except SubstrateError (Option Message) × Host env rt) : Bool :=
  match p.1 with
  | .ok (some reply) => ((OrdMap.get "accepted" reply.payload).bind Value.bool?).getD false
  | _ => false

/-- The first request to a substrate revokes a peer, and is accepted. -/
theorem first_request_accepted : ∃ h', AcceptsRevocation (newHost smallEnv wholeNumbers)
    (mutationRequest "revoke_federation_peer" revocationBody) revokedPeer h' := by
  have h : ((handleSubmitMutationRequest (mutationRequest "revoke_federation_peer"
      revocationBody)).exec (newHost smallEnv wholeNumbers)).any acceptedReply? = true := by
    decide +kernel
  obtain ⟨⟨r, h'⟩, he, hr⟩ := (Option.any_eq_true _ _).1 h
  refine ⟨h', by decide +kernel, by decide +kernel, ?_⟩
  rcases r with e | reply
  · cases hr
  · cases reply with
    | none => cases hr
    | some reply =>
      refine ⟨reply, he, ?_⟩
      simp only [acceptedReply?] at hr
      cases hg : OrdMap.get "accepted" reply.payload with
      | none =>
        rw [hg] at hr
        cases hr
      | some v =>
        rw [hg] at hr
        cases v <;> simp_all [Value.bool?]

theorem revocation_takes_effect_first : ∃ h', AcceptsRevocation (newHost smallEnv wholeNumbers)
    (mutationRequest "revoke_federation_peer" revocationBody) revokedPeer h' ∧
    ((∀ fs t, Run h'.server fs t → Shunned revokedPeer t) ↔
      revokedPeer ∈ (stateOf smallEnv []).revokedFederationPeers ∧
        revokedPeer ≠ ownId (stateOf smallEnv [])) := by
  obtain ⟨h', ha⟩ := first_request_accepted
  have hb : Booted (stateOf smallEnv []) := rfl
  exact ⟨h', ha, revocation_takes_effect_iff hb .nil ha⟩

/-- The peer is not revoked when its revocation has been accepted. -/
theorem accepted_revocation_without_effect : ∃ h', Booted (stateOf smallEnv []) ∧
    AcceptsRevocation (newHost smallEnv wholeNumbers)
      (mutationRequest "revoke_federation_peer" revocationBody) revokedPeer h' ∧
    revokedPeer ∉ h'.server.revokedFederationPeers ∧ ¬ Shunned revokedPeer h'.server := by
  obtain ⟨h', ha⟩ := first_request_accepted
  have hsame : h'.server.revokedFederationPeers = [] := (step_does ha.step).revoked_eq
  refine ⟨h', rfl, ha, by simp [hsame], fun hs => ?_⟩
  have hrev := hs.revoked
  rw [hsame] at hrev
  cases hrev

end

end Myco.Tropism
