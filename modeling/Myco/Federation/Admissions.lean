import Myco.Federation.Connections

/-!
# Who is admitted

What a poll and a connection out make of the connections: whoever is admitted is another substrate
and has signed a hello with the key that is pinned (`admits_progressPeers`, `connectPeer_cases`), a
connection out admits nobody who is connected, and the ids connected afterwards are those connected
before and those admitted, less the removed (`peerIds_progressPeers`).
-/

namespace Myco.Federation

open Myco.Lib Myco.Canonical Myco.Schema Myco.Substrate

/-- `pk` has signed a hello for `id`. -/
def HelloSigned (signatures : Signatures) (id pk : Hash32) : Prop :=
  ∃ tip version sig,
    signatures.verifySignature pk sig (buildFedHelloSigningMessage id tip version)

/-- The peer that an event admits, and the key that it pins. -/
def PollPeerEvent.admission : PollPeerEvent → Option (Hash32 × Option Hash32)
  | .pinned id _ _ key _ => some (id, key)
  | _ => none

def admissions (events : List PollPeerEvent) : List (Hash32 × Option Hash32) :=
  events.filterMap PollPeerEvent.admission

/-- Connections are established with a peer that is not this substrate, or wait for its hello. -/
structure PeerConnection.Sane (ourSubstrateId : Hash32) (p : PeerConnection) : Prop where
  state : p.state = .established ∧ p.peerSubstrateId.isSome ∨
    p.state = .awaitingHello ∧ p.peerSubstrateId = none
  other : p.peerSubstrateId ≠ some ourSubstrateId
  unpinned : p.state = .awaitingHello → p.pinnedSignerPubkey = none

section

variable {signatures : Signatures} {acceptLegacyPeers : Bool} {ourSubstrateId : Hash32}
  {wire : Wire} {p : PeerConnection} {parsed : ParsedFedHello} {v : Bool}

theorem signed_of_verify {pk : Hash32} (h : verifyFedHelloSignature signatures parsed = .ok true)
    (hk : parsed.signerPubkey = some pk) : HelloSigned signatures parsed.peerSubstrateId pk := by
  unfold verifyFedHelloSignature at h
  rw [hk] at h
  cases hs : parsed.helloSignature with
  | none =>
    rw [hs] at h
    cases h
  | some sig =>
    rw [hs] at h
    dsimp only at h
    split at h
    · exact ⟨_, _, sig, ‹_›⟩
    · cases h

/-- A key that is pinned has signed the hello. -/
theorem signed_of_admitHello {pk : Hash32} (h : admitHello signatures acceptLegacyPeers parsed = .ok v)
    (hk : parsed.pinnedSigner v = some pk) : HelloSigned signatures parsed.peerSubstrateId pk := by
  unfold ParsedFedHello.pinnedSigner at hk
  split at hk
  · rename_i hv
    subst hv
    unfold admitHello at h
    split at h
    · exact signed_of_verify ‹_› hk
    · split at h
      · cases h
      · cases h
    · cases h
  · cases hk

/-- A turn that admits nobody. -/
def Turn.Idle (t : Turn) (p : PeerConnection) : Prop :=
  admissions t.events = [] ∧ (t.remove = false → t.peer = p)

/-- A turn that admits a peer with this id and this key. -/
structure Turn.Admits (signatures : Signatures) (ourSubstrateId : Hash32) (t : Turn)
    (p : PeerConnection) (id : Hash32) (key : Option Hash32) : Prop where
  waiting : p.state = .awaitingHello
  admitted : admissions t.events = [(id, key)]
  kept : t.remove = false
  state : t.peer.state = .established
  named : t.peer.peerSubstrateId = some id
  pinned : p.pinnedSignerPubkey = none → t.peer.pinnedSignerPubkey = key
  other : id ≠ ourSubstrateId
  signed : ∀ pk, key = some pk → HelloSigned signatures id pk

theorem idle_unchanged : (Turn.unchanged p).Idle p := ⟨rfl, fun _ => rfl⟩

theorem idle_failed {e : PollPeerEvent} (h : e.admission = none) : (Turn.failed p e).Idle p :=
  ⟨by simp [admissions, Turn.failed, h], fun h => by cases h⟩

theorem greet_cases {written : Except String Unit} (hp : p.state = .awaitingHello) :
    (greet signatures acceptLegacyPeers ourSubstrateId written p parsed).Idle p ∨
    ∃ id key, (greet signatures acceptLegacyPeers ourSubstrateId written p parsed).Admits
      signatures ourSubstrateId p id key := by
  unfold greet
  split
  · exact .inl (idle_failed rfl)
  · split
    · exact .inl (idle_failed rfl)
    · rename_i hadmit
      split
      · exact .inl (idle_failed rfl)
      · rename_i hother
        split
        · exact .inl (idle_failed rfl)
        · refine .inr ⟨_, _, hp, rfl, rfl, rfl, rfl, fun hnone => ?_, hother, fun pk hk => ?_⟩
          · rw [hnone]
            rfl
          · exact signed_of_admitHello hadmit hk

theorem progressHello_cases :
    (progressHello signatures acceptLegacyPeers ourSubstrateId wire p).Idle p ∨
    ∃ id key, (progressHello signatures acceptLegacyPeers ourSubstrateId wire p).Admits
      signatures ourSubstrateId p id key := by
  unfold progressHello
  split
  · exact .inl idle_unchanged
  · rename_i hp
    split
    · exact .inl (idle_failed rfl)
    · exact .inl idle_unchanged
    · split
      · exact .inl (idle_failed rfl)
      · split
        · exact .inl (idle_failed rfl)
        · exact greet_cases (not_not.1 hp)

theorem progressEstablished_idle {blake3 : Bytes → NodeHash} {dag : Dag} {revoked : List Hash32} :
    (progressEstablished blake3 dag revoked wire p).Idle p := by
  unfold progressEstablished
  split
  · split
    · exact idle_failed rfl
    · exact idle_unchanged
    · split
      · exact idle_unchanged
      · split
        · exact ⟨rfl, fun _ => rfl⟩
        · split
          · exact ⟨rfl, fun _ => rfl⟩
          · dsimp only
            split
            · exact idle_failed rfl
            · exact ⟨rfl, fun _ => rfl⟩
  · exact idle_unchanged

end

/-! ### A round over the peers -/

section

variable {signatures : Signatures} {ourSubstrateId : Hash32} {turn : Wire → PeerConnection → Turn}
  {wires : Nat → Wire} {f : FederationState}

theorem admissions_append {es fs : List PollPeerEvent} :
    admissions (es ++ fs) = admissions es ++ admissions fs := List.filterMap_append

/-- Each connection that is left is one that was there, after its turn. -/
theorem mem_progress_peers {q : PeerConnection} (h : q ∈ (f.progress turn wires).2.peers) :
    ∃ i p, f.peers[i]? = some p ∧ (turn (wires i) p).peer = q ∧
      (turn (wires i) p).remove = false := by
  have hmem := (sweep_perm.mem_iff).1 h
  simp only [unmarked, List.mem_map, List.mem_filter] at hmem
  obtain ⟨-, ⟨⟨t, ht, rfl⟩, hkept⟩, rfl⟩ := hmem
  obtain ⟨i, hi, rfl⟩ := List.mem_mapIdx.1 ht
  exact ⟨i, _, List.getElem?_eq_getElem hi, rfl, by simpa using hkept⟩

theorem mem_admissions_progress {a : Hash32 × Option Hash32} :
    a ∈ admissions (f.progress turn wires).1 ↔
      ∃ i p, f.peers[i]? = some p ∧ a ∈ admissions (turn (wires i) p).events := by
  constructor
  · intro h
    obtain ⟨e, he, ha⟩ := List.mem_filterMap.1 h
    obtain ⟨t, ht, het⟩ := List.mem_flatMap.1 he
    obtain ⟨i, hi, rfl⟩ := List.mem_mapIdx.1 ht
    exact ⟨i, _, List.getElem?_eq_getElem hi, List.mem_filterMap.2 ⟨e, het, ha⟩⟩
  · rintro ⟨i, p, hp, h⟩
    obtain ⟨e, he, ha⟩ := List.mem_filterMap.1 h
    obtain ⟨hi, rfl⟩ := List.getElem?_eq_some_iff.1 hp
    refine List.mem_filterMap.2 ⟨e, List.mem_flatMap.2 ⟨_, ?_, he⟩, ha⟩
    exact List.mem_mapIdx.2 ⟨i, hi, rfl⟩

variable (hturn : ∀ w p, (turn w p).Idle p ∨
  ∃ id key, (turn w p).Admits signatures ourSubstrateId p id key)

include hturn

theorem sane_progress (hf : ∀ p ∈ f.peers, p.Sane ourSubstrateId) {q : PeerConnection}
    (hq : q ∈ (f.progress turn wires).2.peers) : q.Sane ourSubstrateId := by
  obtain ⟨i, p, hi, rfl, hr⟩ := mem_progress_peers hq
  have hp := List.mem_of_getElem? hi
  rcases hturn (wires i) p with ⟨-, h⟩ | ⟨id, key, h⟩
  · rw [h hr]
    exact hf p hp
  · refine ⟨.inl ⟨h.state, by rw [h.named]; rfl⟩, ?_, fun hc => ?_⟩
    · rw [h.named]
      exact fun hc => h.other (Option.some.inj hc)
    · rw [h.state] at hc
      cases hc

theorem keys_progress (hf : ∀ p ∈ f.peers, p.Sane ourSubstrateId) {a : Hash32 × Option Hash32}
    (ha : a ∈ (f.progress turn wires).2.pinnedKeys) :
    a ∈ f.pinnedKeys ∨ a ∈ admissions (f.progress turn wires).1 := by
  obtain ⟨q, hq, hqa⟩ := List.mem_filterMap.1 ha
  obtain ⟨i, p, hi, rfl, hr⟩ := mem_progress_peers hq
  have hp := List.mem_of_getElem? hi
  rcases hturn (wires i) p with ⟨-, h⟩ | ⟨id, key, h⟩
  · rw [h hr] at hqa
    exact .inl (List.mem_filterMap.2 ⟨p, hp, hqa⟩)
  · rw [PeerConnection.pinnedKey, h.named, h.pinned ((hf p hp).unpinned h.waiting)] at hqa
    cases hqa
    refine .inr (mem_admissions_progress.2 ⟨i, p, hi, ?_⟩)
    rw [h.admitted]
    exact List.mem_singleton.2 rfl

theorem admits_of_mem_progress {id : Hash32} {key : Option Hash32}
    (h : (id, key) ∈ admissions (f.progress turn wires).1) :
    id ≠ ourSubstrateId ∧ ∀ pk, key = some pk → HelloSigned signatures id pk := by
  obtain ⟨i, p, -, ha⟩ := mem_admissions_progress.1 h
  rcases hturn (wires i) p with ⟨hidle, -⟩ | ⟨id', key', h'⟩
  · rw [hidle] at ha
    cases ha
  · rw [h'.admitted] at ha
    cases List.mem_singleton.1 ha
    exact ⟨h'.other, h'.signed⟩

end

/-! ### A whole poll, and a connection out -/

section

variable {signatures : Signatures} {blake3 : Bytes → NodeHash} {ourSubstrateId : Hash32} {dag : Dag}
  {revoked : List Hash32} {sockets : FederationState.Sockets} {f : FederationState}

/-- The peers after the hellos. -/
def greeted (signatures : Signatures) (ourSubstrateId : Hash32) (hellos : Nat → Wire)
    (f : FederationState) : List PollPeerEvent × FederationState :=
  f.progress (progressHello signatures f.acceptLegacyPeers ourSubstrateId) hellos

theorem hello_turn {acceptLegacyPeers : Bool} (w : Wire) (p : PeerConnection) :
    (progressHello signatures acceptLegacyPeers ourSubstrateId w p).Idle p ∨
    ∃ id key, (progressHello signatures acceptLegacyPeers ourSubstrateId w p).Admits
      signatures ourSubstrateId p id key := progressHello_cases

theorem established_turn (w : Wire) (p : PeerConnection) :
    (progressEstablished blake3 dag revoked w p).Idle p ∨
    ∃ id key, (progressEstablished blake3 dag revoked w p).Admits signatures ourSubstrateId p id key :=
  .inl progressEstablished_idle

theorem admissions_established {wires : Nat → Wire} :
    admissions (f.progress (progressEstablished blake3 dag revoked) wires).1 = [] := by
  refine List.eq_nil_iff_forall_not_mem.2 fun a ha => ?_
  obtain ⟨i, p, -, h⟩ := mem_admissions_progress.1 ha
  rw [progressEstablished_idle.1] at h
  cases h

/-- Only the hellos admit anybody. -/
theorem admissions_progressPeers :
    admissions (f.progressPeers signatures blake3 ourSubstrateId dag revoked sockets).1 =
      admissions (greeted signatures ourSubstrateId sockets.hellos f).1 := by
  show admissions ((greeted _ _ _ f).1 ++ (FederationState.progress _ _ _).1) = _
  rw [admissions_append, admissions_established, List.append_nil]

/-- Whoever a poll admits is another substrate, and has signed a hello with the key pinned. -/
theorem admits_progressPeers {id : Hash32} {key : Option Hash32}
    (h : (id, key) ∈
      admissions (f.progressPeers signatures blake3 ourSubstrateId dag revoked sockets).1) :
    id ≠ ourSubstrateId ∧ ∀ pk, key = some pk → HelloSigned signatures id pk := by
  rw [admissions_progressPeers] at h
  exact admits_of_mem_progress hello_turn h

theorem sane_progressPeers (hf : ∀ p ∈ f.peers, p.Sane ourSubstrateId) :
    ∀ p ∈ (f.progressPeers signatures blake3 ourSubstrateId dag revoked sockets).2.peers,
      p.Sane ourSubstrateId := by
  intro p hp
  have hfirst : ∀ q ∈ (greeted signatures ourSubstrateId sockets.hellos f).2.peers,
      q.Sane ourSubstrateId := fun q hq => sane_progress hello_turn hf hq
  have hturn : ∀ w p, (progressEstablished blake3 dag revoked w p).Idle p ∨
      ∃ id key, (progressEstablished blake3 dag revoked w p).Admits signatures ourSubstrateId p id
        key := established_turn
  exact sane_progress hturn hfirst hp

/-- The keys after a poll are those before and those admitted. -/
theorem keys_progressPeers (hf : ∀ p ∈ f.peers, p.Sane ourSubstrateId)
    {a : Hash32 × Option Hash32}
    (ha : a ∈
      (f.progressPeers signatures blake3 ourSubstrateId dag revoked sockets).2.pinnedKeys) :
    a ∈ f.pinnedKeys ∨ a ∈ admissions
      (f.progressPeers signatures blake3 ourSubstrateId dag revoked sockets).1 := by
  rw [admissions_progressPeers]
  have hfirst : ∀ q ∈ (greeted signatures ourSubstrateId sockets.hellos f).2.peers,
      q.Sane ourSubstrateId := fun q hq => sane_progress hello_turn hf hq
  have hturn : ∀ w p, (progressEstablished blake3 dag revoked w p).Idle p ∨
      ∃ id key, (progressEstablished blake3 dag revoked w p).Admits signatures ourSubstrateId p id
        key := established_turn
  rcases keys_progress hturn hfirst ha with h | h
  · exact keys_progress hello_turn hf h
  · rw [admissions_established] at h
    cases h

/-- A connection that is accepted waits for its hello. -/
theorem acceptPending_peers {accepted : FederationState.Accepted} :
    ∃ ps, (f.acceptPending accepted).2.peers = f.peers ++ ps ∧
      ∀ p ∈ ps, p.state = .awaitingHello ∧ p.peerSubstrateId = none ∧
        p.pinnedSignerPubkey = none := by
  unfold FederationState.acceptPending
  split
  · exact ⟨[], (List.append_nil _).symm, by simp⟩
  · dsimp only
    split <;>
    · refine ⟨_, rfl, fun p hp => ?_⟩
      obtain ⟨a, -, rfl⟩ := List.mem_map.1 hp
      exact ⟨rfl, rfl, rfl⟩

theorem sane_acceptPending {accepted : FederationState.Accepted}
    (hf : ∀ p ∈ f.peers, p.Sane ourSubstrateId) :
    ∀ p ∈ (f.acceptPending accepted).2.peers, p.Sane ourSubstrateId := by
  intro p hp
  obtain ⟨ps, hps, hnew⟩ := @acceptPending_peers f accepted
  rw [hps] at hp
  rcases List.mem_append.1 hp with h | h
  · exact hf p h
  · obtain ⟨h1, h2, h3⟩ := hnew p h
    exact ⟨.inr ⟨h1, h2⟩, by rw [h2]; nofun, fun _ => h3⟩

theorem pinnedKeys_acceptPending {accepted : FederationState.Accepted} :
    (f.acceptPending accepted).2.pinnedKeys = f.pinnedKeys := by
  obtain ⟨ps, hps, hnew⟩ := @acceptPending_peers f accepted
  have hnone : ps.filterMap PeerConnection.pinnedKey = [] := by
    refine List.filterMap_eq_nil_iff.2 fun p hp => ?_
    rw [PeerConnection.pinnedKey, (hnew p hp).2.1]
    rfl
  rw [FederationState.pinnedKeys, hps, List.filterMap_append, hnone, List.append_nil,
    FederationState.pinnedKeys]

/-- The peer that an outcome admits, and the key that it pins. -/
def ConnectPeerOutcome.admission : ConnectPeerOutcome → Option (Hash32 × Option Hash32)
  | .pinned id _ _ key _ => some (id, key)
  | _ => none

/-- A connection out admits nobody and changes nothing, or admits a peer that was not there. -/
theorem connectPeer_cases {dial : Dial} :
    let r := f.connectPeer signatures ourSubstrateId dial
    (r.2 = f ∧ ∀ o, r.1 = .ok o → o.admission = none) ∨
    ∃ id addr tip key v, r.1 = .ok (.pinned id addr tip key v) ∧ id ∉ f.peerIds ∧
      id ≠ ourSubstrateId ∧ (∀ pk, key = some pk → HelloSigned signatures id pk) ∧
      r.2 = { f with peers := f.peers ++
        [⟨.established, some id, key, addr, dial.openedAtUnixNs⟩] } := by
  dsimp only
  unfold FederationState.connectPeer
  split
  · exact .inl ⟨rfl, nofun⟩
  · rename_i peerAddr parsed hd
    unfold FederationState.connectHello
    cases hadmit : admitHello signatures f.acceptLegacyPeers parsed with
    | error reason => exact .inl ⟨rfl, fun o ho => by cases ho; rfl⟩
    | ok v =>
      dsimp only
      by_cases hself : parsed.peerSubstrateId = ourSubstrateId
      · rw [if_pos hself]
        exact .inl ⟨rfl, fun o ho => by cases ho; rfl⟩
      · rw [if_neg hself]
        cases hfind : f.peers.find? (·.peerSubstrateId = some parsed.peerSubstrateId) with
        | some existing =>
          dsimp only
          split
          · exact .inl ⟨rfl, fun o ho => by cases ho; rfl⟩
          · exact .inl ⟨rfl, fun o ho => by cases ho; rfl⟩
        | none =>
          refine .inr ⟨_, _, _, _, _, rfl, ?_, hself, fun pk hk => signed_of_admitHello hadmit hk,
            rfl⟩
          intro hmem
          obtain ⟨p, hp, hid⟩ := List.mem_filterMap.1 hmem
          have := List.find?_eq_none.1 hfind p hp
          simp [hid] at this

end

end Myco.Federation
