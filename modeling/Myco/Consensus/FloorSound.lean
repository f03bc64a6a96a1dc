import Mathlib.Data.List.ReduceOption
import Myco.Consensus.Impostors

/-!
# An active floor and its quorum

The floor is active from three connections on, whoever they are; the quorum is taken of the
connected, unrevoked ids. `FloorSound`: an active floor has a quorum of at least three behind it.
That is so as long as whoever is connected has said a hello, as somebody whom no other connection is
for and who is not revoked, as soon as there are three connections (`floor_sound`).

Connections that have only been accepted are enough to activate the floor.
-/

namespace Myco.Consensus

open Myco.Lib Myco.Canonical Myco.Schema Myco.Substrate Myco.Federation

variable {env : Env}

/-- What an active floor promises. -/
structure QuorumBehind (s : ServerState env) : Prop where
  size : 4 ≤ peerSetSizeN s
  established : ∃ ids : Finset Hash32, 3 ≤ ids.card ∧ ∀ id ∈ ids, id ≠ ownId s ∧
    id ∉ s.revokedFederationPeers ∧
    ∃ p ∈ s.federation.peers, p.state = .established ∧ p.peerSubstrateId = some id
  accepted : ∀ claimType ch hash n, findValidQuorumCert s claimType ch = some (hash, n) →
    ∃ node ∈ s.nodes, ∃ cert, node.hash = hash ∧ certOn claimType ch node = some cert ∧
      3 ≤ (verifiedVoters env cert (resolvePubkey s (derivePinnedSignerPubkeys s))).card
  minted : ∀ claimType ch payload round hash t,
    (recheckQuorumAndMaybeEmitCert claimType ch payload round).exec s =
      some (.ok (some hash), t) →
    ∃ node ∈ t.nodes, ∃ cert, node.hash = hash ∧ certOn claimType ch node = some cert ∧
      3 ≤ (verifiedVoters env cert (resolvePubkey s (derivePinnedSignerPubkeys s))).card

def FloorSound (s : ServerState env) : Prop := consensusFloorActive s = true → QuorumBehind s

/-- The unrevoked peers whose handshake is finished. -/
def finishedPeers (f : FederationState) (revoked : List Hash32) : Finset Hash32 :=
  ((f.peers.filter (·.state = .established)).filterMap PeerConnection.peerSubstrateId).toFinset.filter
    (· ∉ revoked)

/-! ### Who is connected -/

/-- Each of these connections is for somebody of its own, who is not revoked, or there are fewer than
three. -/
def Vouched (revoked : List Hash32) (ids : List (Option Hash32)) : Prop :=
  ids.length < 3 ∨ ids.Nodup ∧ ∀ id ∈ ids, id.any (· ∉ revoked)

instance {revoked : List Hash32} {ids : List (Option Hash32)} : Decidable (Vouched revoked ids) :=
  inferInstanceAs (Decidable (_ ∨ _ ∧ _))

def connectedIds (f : FederationState) : List (Option Hash32) :=
  f.peers.map PeerConnection.peerSubstrateId

/-- A hello of somebody else that is of this version and admissible, and is acknowledged. -/
def welcome (s : ServerState env) (w : Wire) (parsed : ParsedFedHello) : Bool :=
  federationVersionsInteroperable federationProtocolVersion parsed.protocolVersion &&
    (admitHello env.signatures s.federation.acceptLegacyPeers parsed).isOk &&
    parsed.peerSubstrateId ≠ ownId s && w.written.isOk

/-- Whom a connection is for once a hello that has come is read: nobody yet where none has, and
`none` where the hello closes the connection. -/
def speaker (s : ServerState env) (w : Wire) (p : PeerConnection) : Option (Option Hash32) :=
  if p.state ≠ .awaitingHello then some p.peerSubstrateId
  else
    match w.frame with
    | .error _ => none
    | .ok none => some p.peerSubstrateId
    | .ok (some hello) =>
      if hello.messageType ≠ "fed_hello" then none
      else
        match parseFedHelloPayload hello.payload with
        | .error _ => none
        | .ok parsed => if welcome s w parsed then some (some parsed.peerSubstrateId) else none

/-- Those that were connected, and those who connect where this substrate listens. -/
def callersOf (s : ServerState env) (input : PollInput) : List PeerConnection :=
  s.federation.peers ++
    if s.federation.listener.isSome then input.accepted.connections.map fun c =>
      ⟨.awaitingHello, none, none, c.1, c.2⟩
    else []

/-- Whom the connections of a poll are for; no hello is read where accepting ends with an error. -/
def speakers (s : ServerState env) (input : PollInput) : List (Option Hash32) :=
  if acceptFails s input then (callersOf s input).map PeerConnection.peerSubstrateId
  else ((callersOf s input).mapIdx fun i p => speaker s (input.sockets.hellos i) p).reduceOption

/-- Whoever answers a dial, and is admitted, is vouched for with those who are connected. -/
def AnswererVouched (s : ServerState env) (dial : Dial) : Prop :=
  ∀ addr parsed, dialHello dial = .ok (addr, parsed) →
    parsed.Admissible env.signatures s.federation.acceptLegacyPeers →
    parsed.peerSubstrateId ≠ ownId s → parsed.peerSubstrateId ∉ s.federation.peerIds →
    Vouched s.revokedFederationPeers
      (connectedIds s.federation ++ [some parsed.peerSubstrateId])

/-- As soon as there are three connections, nobody is on them who says nothing, whom two of them are
for, or who is revoked. -/
def Event.Vouches (s : ServerState env) : Event → Prop
  | .call (.poll input _) _ | .call (.tick input) _ =>
    Vouched s.revokedFederationPeers (speakers s input)
  | .call (.connectPeer dial request) _ => names request "remote_addr" → AnswererVouched s dial
  | .call (.linkToParent dial _) _ => (parentToLink s).isSome → AnswererVouched s dial
  | .call (.revoke r) (.ok _) =>
    Vouched (r.revokedPeerSubstrateId :: s.revokedFederationPeers) (connectedIds s.federation)
  | _ => True

section

variable {s : ServerState env}

theorem mem_finishedPeers {f : FederationState} {revoked : List Hash32} {id : Hash32} :
    id ∈ finishedPeers f revoked ↔
      (∃ p ∈ f.peers, p.state = .established ∧ p.peerSubstrateId = some id) ∧ id ∉ revoked := by
  simp [finishedPeers, and_assoc]

/-- Only a finished handshake names a peer. -/
theorem finishedPeers_eq (hs : ∀ p ∈ s.federation.peers, p.Sane (ownId s)) :
    finishedPeers s.federation s.revokedFederationPeers = liveNonRevoked s := by
  ext id
  rw [mem_finishedPeers, liveNonRevoked, List.mem_toFinset, List.mem_filter,
    FederationState.peerIds, List.mem_filterMap, decide_eq_true_iff]
  refine and_congr_left fun _ => exists_congr fun p => and_congr_right fun hp => ?_
  constructor
  · exact fun h => h.2
  · intro hid
    rcases (hs p hp).state with ⟨h, -⟩ | ⟨-, h⟩
    · exact ⟨h, hid⟩
    · rw [h] at hid
      cases hid

theorem consensusFloorActive_iff : consensusFloorActive s = true ↔ 3 ≤ s.federation.peers.length := by
  simp [consensusFloorActive, FederationState.peerCount, consensusFloorMinPeers]

/-- With four substrates, whatever the gate accepts has three voters. -/
theorem accepted_voters (hn : 4 ≤ peerSetSizeN s) {claimType : String} {ch : Hash32}
    {hash : NodeHash} {n : Nat} (h : findValidQuorumCert s claimType ch = some (hash, n)) :
    ∃ node ∈ s.nodes, ∃ cert, node.hash = hash ∧ certOn claimType ch node = some cert ∧
      3 ≤ (verifiedVoters env cert (resolvePubkey s (derivePinnedSignerPubkeys s))).card := by
  obtain ⟨xs, node, ys, cert, hs, -, ⟨hon, hacc⟩, hhash⟩ := findValidQuorumCert_eq_some.1 h
  obtain ⟨-, -, hthreshold, hcard⟩ := certAccepted_eq_some.1 hacc
  have hthree : 3 ≤ quorumThreshold (peerSetSizeN s) := three_le_quorumThreshold.2 (by omega)
  exact ⟨node, by simp [hs], cert, hhash, hon, by omega⟩

/-- With four substrates, whatever a recheck mints has three voters. -/
theorem minted_voters (hf : Filed s) (hn : 4 ≤ peerSetSizeN s) {claimType : String} {ch : Hash32}
    {payload : Bytes} {round : UInt64} {hash : NodeHash} {t : ServerState env}
    (h : (recheckQuorumAndMaybeEmitCert claimType ch payload round).exec s =
      some (.ok (some hash), t)) :
    ∃ node ∈ t.nodes, ∃ cert, node.hash = hash ∧ certOn claimType ch node = some cert ∧
      3 ≤ (verifiedVoters env cert (resolvePubkey s (derivePinnedSignerPubkeys s))).card := by
  obtain ⟨-, ⟨hash', k, hfind, hr, rfl⟩ | ⟨-, ws, -, ⟨-, hr⟩ | ⟨c, ht, hr, hmint⟩⟩⟩ :=
    recheck_cases h
  · cases hr
    exact accepted_voters hn hfind
  · exact absurd rfl (hr.ne hash)
  · cases hr
    have hon := certOn_eq_some.2 ⟨hmint.nodeType, hmint.cert, rfl⟩
    refine ⟨c, by simp [ht], _, rfl, hon, ?_⟩
    rw [verifiedVoters_certOf hf]
    have hthree : 3 ≤ quorumThreshold (peerSetSizeN s) := three_le_quorumThreshold.2 (by omega)
    exact hthree.trans hmint.quorum

/-- What the floor takes to be sound. -/
theorem floorSound_iff (hs : ∀ p ∈ s.federation.peers, p.Sane (ownId s)) (hf : Filed s) :
    FloorSound s ↔ s.federation.peers.length < 3 ∨
      3 ≤ (finishedPeers s.federation s.revokedFederationPeers).card := by
  have hcard := congrArg Finset.card (finishedPeers_eq hs)
  unfold FloorSound
  rw [consensusFloorActive_iff]
  constructor
  · intro h
    by_cases hlen : 3 ≤ s.federation.peers.length
    · have hsize := (h hlen).size
      unfold peerSetSizeN at hsize
      omega
    · omega
  · intro h hlen
    have hthree : 3 ≤ (finishedPeers s.federation s.revokedFederationPeers).card := by omega
    have hsize : 4 ≤ peerSetSizeN s := by
      unfold peerSetSizeN
      omega
    refine ⟨hsize, ⟨_, hthree, fun id hid => ?_⟩, fun _ _ _ _ => accepted_voters hsize,
      fun _ _ _ _ _ _ => minted_voters hf hsize⟩
    obtain ⟨⟨p, hp, hstate, hpid⟩, hrev⟩ := mem_finishedPeers.1 hid
    exact ⟨fun hown => (hs p hp).other (hown ▸ hpid), hrev, p, hp, hstate, hpid⟩

end

/-! ### Connections that are vouched for -/

section

variable {s : ServerState env} {e : Event} {input : PollInput} {dial : Dial} {f : FederationState}
  {revoked : List Hash32} {ids ids' : List (Option Hash32)}

theorem Vouched.subperm (h : Vouched revoked ids) (hsub : ids'.Subperm ids) :
    Vouched revoked ids' := by
  rcases h with hlen | ⟨hnodup, hall⟩
  · exact .inl (hsub.length_le.trans_lt hlen)
  · refine .inr ⟨?_, fun id hid => hall id (hsub.subset hid)⟩
    obtain ⟨l, hperm, hl⟩ := hsub
    exact hperm.nodup_iff.1 (hl.nodup hnodup)

/-- Vouched connections have as many live peers behind them. -/
theorem Vouched.quorum (h : Vouched s.revokedFederationPeers (connectedIds s.federation)) :
    s.federation.peers.length < 3 ∨ 3 ≤ (liveNonRevoked s).card := by
  rcases h with hlen | ⟨hnodup, hall⟩
  · rw [connectedIds, List.length_map] at hlen
    exact .inl hlen
  · have hsome : s.federation.peerIds.map some = connectedIds s.federation := by
      have hids : s.federation.peerIds = (connectedIds s.federation).filterMap id := by
        rw [connectedIds, List.filterMap_map]
        rfl
      rw [hids]
      rw [List.map_filterMap_some_eq_filter_map_isSome, List.map_id, List.filter_eq_self]
      intro id hid
      obtain ⟨x, hx, -⟩ := (Option.any_eq_true _ _).1 (hall id hid)
      rw [hx]
      rfl
    have hlive : s.federation.peerIds.filter (· ∉ s.revokedFederationPeers) =
        s.federation.peerIds := by
      refine List.filter_eq_self.2 fun id hid => ?_
      have hid' : some id ∈ connectedIds s.federation := hsome ▸ List.mem_map_of_mem hid
      exact hall _ hid'
    have hcard : (liveNonRevoked s).card = s.federation.peers.length := by
      rw [liveNonRevoked, hlive, List.toFinset_card_of_nodup, ← List.length_map (f := some), hsome,
        connectedIds, List.length_map]
      exact .of_map _ (hsome ▸ hnodup)
    omega

/-- Whom a turn leaves a connection for. -/
def leaves (t : Turn) : Option (Option Hash32) :=
  if t.remove then none else some t.peer.peerSubstrateId

theorem connectedIds_progress {turn : Wire → PeerConnection → Turn} {wires : Nat → Wire} :
    (connectedIds (f.progress turn wires).2).Perm
      (f.peers.mapIdx fun i p => leaves (turn (wires i) p)).reduceOption := by
  have hunmarked : ∀ ts : List Turn, (unmarked (ts.map fun t => (t.peer, t.remove))).map
      PeerConnection.peerSubstrateId = (ts.map leaves).reduceOption := by
    intro ts
    induction ts with
    | nil => rfl
    | cons t ts ih =>
      cases hr : t.remove <;>
        simp_all [unmarked, leaves, List.reduceOption_cons_of_some, List.reduceOption_cons_of_none]
  refine (sweep_perm.map _).trans (.of_eq ?_)
  rw [hunmarked]
  exact congrArg List.reduceOption (List.ext_getElem (by simp) (by simp))

theorem reduceOption_mapIdx_sublist {α β : Type} {g : Nat → α → Option β} {h : α → β}
    (hg : ∀ i a b, g i a = some b → b = h a) (l : List α) :
    (l.mapIdx g).reduceOption.Sublist (l.map h) := by
  induction l generalizing g with
  | nil => exact .slnil
  | cons a l ih =>
    rw [List.mapIdx_cons, List.map_cons]
    cases ha : g 0 a with
    | none =>
      rw [List.reduceOption_cons_of_none]
      exact (ih fun i a b => hg (i + 1) a b).cons _
    | some b =>
      rw [List.reduceOption_cons_of_some, hg 0 a b ha]
      exact (ih fun i a b => hg (i + 1) a b).cons_cons _

/-- Serving the established lets go of connections, and leaves the others for whom they were. -/
theorem connectedIds_established {blake3 : Bytes → NodeHash} {dag : Dag} {wires : Nat → Wire} :
    (connectedIds (f.progress (progressEstablished blake3 dag revoked) wires).2).Subperm
      (connectedIds f) := by
  refine connectedIds_progress.subperm.trans (List.Sublist.subperm ?_)
  refine reduceOption_mapIdx_sublist (fun i p id hid => ?_) f.peers
  obtain ⟨-, hkept⟩ := @progressEstablished_idle (wires i) p blake3 dag revoked
  unfold leaves at hid
  split at hid
  · cases hid
  · rename_i hr
    rw [hkept (by simpa using hr)] at hid
    exact (Option.some.inj hid).symm

/-- A hello leaves its connection for whom it says. -/
theorem leaves_progressHello {w : Wire} {p : PeerConnection} :
    leaves (progressHello env.signatures s.federation.acceptLegacyPeers (ownId s) w p) =
      speaker s w p := by
  unfold progressHello speaker
  split
  · rfl
  · cases w.frame with
    | error e => rfl
    | ok frame =>
      cases frame with
      | none => rfl
      | some hello =>
        dsimp only
        split
        · rfl
        · cases parseFedHelloPayload hello.payload with
          | error e => rfl
          | ok parsed =>
            dsimp only
            unfold greet welcome
            cases federationVersionsInteroperable federationProtocolVersion parsed.protocolVersion with
            | false => rfl
            | true =>
              cases admitHello env.signatures s.federation.acceptLegacyPeers parsed with
              | error reason => rfl
              | ok v =>
                by_cases hown : parsed.peerSubstrateId = ownId s
                · simp [hown, leaves, Turn.failed]
                · cases w.written <;>
                    simp [hown, leaves, Turn.failed, Except.isOk, Except.toBool]

theorem acceptPending_callersOf :
    (s.federation.acceptPending input.accepted).2.peers = callersOf s input := by
  unfold FederationState.acceptPending callersOf
  cases s.federation.listener with
  | none => simp
  | some l =>
    cases input.accepted.error <;> simp

theorem vouched_poll (h : Vouched s.revokedFederationPeers (speakers s input)) :
    Vouched s.revokedFederationPeers (connectedIds (pollChange s input).federation) := by
  have hcallers := @acceptPending_callersOf _ s input
  unfold speakers at h
  unfold pollChange
  split at h
  · rename_i hfails
    obtain ⟨e, -, hserve⟩ := serve_of_acceptFails hfails
    rw [hserve, connectedIds, hcallers]
    exact h
  · rename_i hfails
    obtain ⟨r, hok⟩ := serve_of_not_acceptFails hfails
    have hlegacy := @acceptPending_legacy _ s input
    unfold serve at hok ⊢
    generalize s.federation.acceptPending input.accepted = accepted at hcallers hlegacy hok
    obtain ⟨outcome, f⟩ := accepted
    cases outcome with
    | error e => cases hok
    | ok n =>
      refine h.subperm (connectedIds_established.trans (connectedIds_progress.trans ?_).subperm)
      dsimp only at hcallers hlegacy
      rw [hcallers, hlegacy]
      simp only [leaves_progressHello]
      exact .refl _

theorem vouched_dial (h : Vouched s.revokedFederationPeers (connectedIds s.federation))
    (hanswerer : AnswererVouched s dial) :
    Vouched s.revokedFederationPeers (connectedIds (dialChange s dial).federation) := by
  unfold dialChange FederationState.connectPeer
  cases hdial : dialHello dial with
  | error e => exact h
  | ok answer =>
    obtain ⟨addr, parsed⟩ := answer
    dsimp only
    unfold FederationState.connectHello
    cases hadmit : admitHello env.signatures s.federation.acceptLegacyPeers parsed with
    | error reason => exact h
    | ok v =>
      dsimp only
      split
      · exact h
      · rename_i hother
        cases hfind : s.federation.peers.find? (·.peerSubstrateId = some parsed.peerSubstrateId) with
        | some existing =>
          dsimp only
          split <;> exact h
        | none =>
          have hnew : parsed.peerSubstrateId ∉ s.federation.peerIds := by
            intro hmem
            obtain ⟨p, hp, hid⟩ := List.mem_filterMap.1 hmem
            exact List.find?_eq_none.1 hfind p hp (by simpa using hid)
          have hvouched := hanswerer addr parsed hdial (admitHello_ok_iff.1 ⟨v, hadmit⟩) hother hnew
          rw [connectedIds, List.map_append]
          exact hvouched

/-- An event that vouches for whom it lets in leaves vouched connections. -/
theorem vouched_change (h : Vouched s.revokedFederationPeers (connectedIds s.federation))
    (he : e.Vouches s) : Vouched (e.revoked s) (connectedIds (e.change s).federation) := by
  rcases e with ⟨c, answer⟩ | _
  · cases c with
    | openListener bound request =>
      rw [Event.change, openListenerChange]
      split
      · cases bound <;> exact h
      · exact h
    | closeListener request => exact h
    | connectPeer dial request =>
      rw [Event.change, connectChange]
      split
      · rename_i hnames
        exact vouched_dial h (he hnames)
      · exact h
    | linkToParent dial request =>
      rw [Event.change, linkChange]
      split
      · exact h
      · rename_i parent hparent
        exact vouched_dial h (he (hparent ▸ rfl))
    | poll input request => exact vouched_poll he
    | tick input =>
      rw [Event.change, tickChange]
      split
      · exact h
      · exact vouched_poll he
    | revoke r =>
      cases answer with
      | error e => exact h
      | ok answer =>
        rw [Event.revoked]
        split
        · exact h
        · exact he
    | restart acceptLegacyPeers => exact .inl (show 0 < 3 by decide)
    | propose request => exact h
    | submit request => exact h
    | query request => exact h
  · exact h

end

/-- An active floor has a quorum behind it in every state of a run that vouches for whom it lets
in. -/
theorem floor_sound {s t : ServerState env} {es : List Event} (hs : Fresh s)
    (hes : Path.Always Step (fun u e _ => e.Vouches u) s es t) :
    ∀ xs ys u, es = xs ++ ys → Run s xs u → Run u ys t → FloorSound u := by
  rintro xs ys u rfl hu ht
  have hvouched : Vouched u.revokedFederationPeers (connectedIds u.federation) := by
    refine hes.keeps (I := fun u => Vouched u.revokedFederationPeers (connectedIds u.federation))
      (fun u e v hstep h he => ?_) ?_ hu ht
    · rw [(step_does hstep).federation_eq, (step_does hstep).revoked_eq]
      exact vouched_change h he
    · rw [connectedIds, hs.peers]
      exact .inl (by decide)
  have hsane := sane_of_run hs hu
  rw [floorSound_iff hsane (filed_of_run hs hu), finishedPeers_eq hsane]
  exact hvouched.quorum

/-! ### Three friends -/

section

/-- The holders of three keys have each signed a hello. -/
def friendsEnv : Env :=
  keyedEnv ([1, 2, 3].map fun n => (.replicate n, buildFedHelloSigningMessage (.replicate n) none 1))

/-- The `i`th of them says hello. -/
def friendHello (i : Nat) : Message :=
  let id : Hash32 := .replicate (UInt8.ofNat (i + 1))
  ⟨"fed_hello", 1, OrdMap.ofList utf8 [("peer_substrate_id", hashValue id),
    ("protocol_version", .uint 1), ("signer_pubkey", hashValue id),
    ("hello_signature", .bytes (signatureNo (UInt8.ofNat i)).bytes)]⟩

/-- Three connect, and say hello. -/
def friendsCall : PollInput :=
  ⟨⟨[("a:1", 0), ("b:1", 0), ("c:1", 0)], none⟩,
    ⟨fun i => ⟨.ok (some (friendHello i)), .ok ()⟩, fun _ => ⟨.ok none, .ok ()⟩⟩⟩

theorem floor_sound_friends : ∃ es, ∃ t : ServerState friendsEnv,
    Run (stateOf friendsEnv []) es t ∧ consensusFloorActive t = true ∧ peerSetSizeN t = 4 ∧
    Path.Always Step (fun u e _ => e.Vouches u) (stateOf friendsEnv []) es t ∧
    ∀ xs ys u, es = xs ++ ys → Run (stateOf friendsEnv []) xs u → Run u ys t → FloorSound u := by
  have h : ((listening.run).exec (stateOf friendsEnv [])).any (fun p =>
      decide (Vouched p.2.revokedFederationPeers (speakers p.2 friendsCall)) &&
      ((Call.poll friendsCall ⟨"federation_poll", 2, []⟩).run.exec p.2).any fun q =>
        consensusFloorActive q.2 && peerSetSizeN q.2 = 4) = true := by decide +kernel
  obtain ⟨⟨a, u⟩, hlisten, hp⟩ := (Option.any_eq_true _ _).1 h
  rw [Bool.and_eq_true, decide_eq_true_iff] at hp
  obtain ⟨hvouched, hp⟩ := hp
  obtain ⟨⟨b, t⟩, hpoll, hq⟩ := (Option.any_eq_true _ _).1 hp
  simp only [Bool.and_eq_true, decide_eq_true_eq] at hq
  have hu : Run (stateOf friendsEnv []) _ u := Path.singleton_iff.2 (.call hlisten)
  have ht : Run u _ t := Path.singleton_iff.2 (.call hpoll)
  have hes : Path.Always Step (fun u e _ => e.Vouches u) (stateOf friendsEnv [])
      [.call listening a, .call (.poll friendsCall ⟨"federation_poll", 2, []⟩) b] t :=
    .cons trivial (fun _ => call_unique (.call hlisten))
      (.cons hvouched (fun _ => call_unique (.call hpoll)) .nil)
  exact ⟨_, t, hu.append ht, hq.1, hq.2, hes, floor_sound fresh_stateOf hes⟩

end

/-! ### A floor with nobody behind it -/

/-- Listens, and three connect who say nothing. -/
def threeSilent : List Call :=
  let l : FederationListener := ⟨"0.0.0.0:7000", 0⟩
  let silent : Wire := ⟨.ok none, .ok ()⟩
  [.openListener (.ok l) ⟨"federation_open_listener", 1, [("bind_addr", .string "0.0.0.0:7000")]⟩,
    .poll ⟨⟨[("a:1", 0), ("b:1", 0), ("c:1", 0)], none⟩, ⟨fun _ => silent, fun _ => silent⟩⟩
      ⟨"federation_poll", 2, []⟩]

theorem floor_active_alone : ∃ es, ∃ t : ServerState smallEnv,
    Run (stateOf smallEnv []) es t ∧ consensusFloorActive t = true ∧ peerSetSizeN t = 1 ∧
      ¬ FloorSound t := by
  have h : (runCalls (stateOf smallEnv []) threeSilent).any (fun p =>
      consensusFloorActive p.2 && peerSetSizeN p.2 = 1) = true := by decide +kernel
  obtain ⟨⟨es, t⟩, hrun, hp⟩ := (Option.any_eq_true _ _).1 h
  simp only [Bool.and_eq_true, decide_eq_true_eq] at hp
  refine ⟨es, t, run_of_runCalls hrun, hp.1, hp.2, fun hsound => ?_⟩
  have := (hsound hp.1).size
  omega

end Myco.Consensus
