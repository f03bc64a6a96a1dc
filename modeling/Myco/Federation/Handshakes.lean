import Myco.Federation.Admissions

/-!
# Handshakes out and in

One hello, answering a dial and opening a connection: what `connect_peer` asks of it
(`connectPins_iff`), what `progress_awaiting_hello_peers` does (`helloPins_iff`), and where the two
differ. `federation_versions_interoperable` is asked of a hello that comes in, and not of the one
that a dial is answered with.
-/

namespace Myco.Federation

open Myco.Lib Myco.Canonical Myco.Schema Myco.Substrate

/-- Signed with a key that verifies, or not signed at all where that is allowed. -/
def ParsedFedHello.Admissible (signatures : Signatures) (acceptLegacyPeers : Bool)
    (parsed : ParsedFedHello) : Prop :=
  (∃ pk sig, parsed.signerPubkey = some pk ∧ parsed.helloSignature = some sig ∧
    signatures.verifySignature pk sig (buildFedHelloSigningMessage parsed.peerSubstrateId
      parsed.peerDagTip parsed.protocolVersion)) ∨
  parsed.signerPubkey = none ∧ parsed.helloSignature = none ∧ acceptLegacyPeers

theorem verifyFedHelloSignature_true_iff {signatures : Signatures} {parsed : ParsedFedHello} :
    verifyFedHelloSignature signatures parsed = .ok true ↔
      ∃ pk sig, parsed.signerPubkey = some pk ∧ parsed.helloSignature = some sig ∧
        signatures.verifySignature pk sig (buildFedHelloSigningMessage parsed.peerSubstrateId
          parsed.peerDagTip parsed.protocolVersion) := by
  unfold verifyFedHelloSignature
  cases hk : parsed.signerPubkey with
  | none => cases hs : parsed.helloSignature <;> simp
  | some pk =>
    cases hs : parsed.helloSignature with
    | none => simp
    | some sig =>
      dsimp only
      split
      · rename_i hv
        exact ⟨fun _ => ⟨pk, sig, rfl, rfl, hv⟩, fun _ => rfl⟩
      · rename_i hv
        refine ⟨fun h => (by cases h), fun ⟨pk', sig', hpk, hsig, hv'⟩ => ?_⟩
        cases hpk
        cases hsig
        exact absurd hv' hv

theorem verifyFedHelloSignature_false_iff {signatures : Signatures} {parsed : ParsedFedHello} :
    verifyFedHelloSignature signatures parsed = .ok false ↔
      parsed.signerPubkey = none ∧ parsed.helloSignature = none := by
  unfold verifyFedHelloSignature
  cases hk : parsed.signerPubkey with
  | none => cases hs : parsed.helloSignature <;> simp
  | some pk =>
    cases hs : parsed.helloSignature with
    | none => simp
    | some sig =>
      dsimp only
      split <;> simp

theorem admitHello_ok_iff {signatures : Signatures} {acceptLegacyPeers : Bool}
    {parsed : ParsedFedHello} :
    (∃ v, admitHello signatures acceptLegacyPeers parsed = .ok v) ↔
      parsed.Admissible signatures acceptLegacyPeers := by
  unfold ParsedFedHello.Admissible
  rw [← verifyFedHelloSignature_true_iff, ← and_assoc, ← verifyFedHelloSignature_false_iff]
  unfold admitHello
  cases hv : verifyFedHelloSignature signatures parsed with
  | error reason => simp
  | ok v =>
    cases v with
    | true => simp
    | false => cases acceptLegacyPeers <;> simp

section

variable {signatures : Signatures} {f : FederationState} {ourSubstrateId : Hash32}
  {payload : List (String × Value)} {peerAddr : String} {openedAtUnixNs : Int64} {id : Hash32}
  {key : Option Hash32}

/-- A dial that goes through and is answered with this hello. -/
def Dial.answered (peerAddr : String) (openedAtUnixNs : Int64) (requestId : UInt64)
    (payload : List (String × Value)) : Dial where
  connected := .ok peerAddr
  readTimeout := .ok ()
  helloWritten := .ok ()
  ackRead := .ok (some ⟨"fed_hello_ack", requestId, payload⟩)
  openedAtUnixNs

/-- A connection that brings this hello and takes the answer. -/
def Wire.greeting (requestId : UInt64) (payload : List (String × Value)) : Wire where
  frame := .ok (some ⟨"fed_hello", requestId, payload⟩)
  written := .ok ()

/-- A peer that has connected, and said nothing yet. -/
def arrived (peerAddr : String) (openedAtUnixNs : Int64) : PeerConnection :=
  ⟨.awaitingHello, none, none, peerAddr, openedAtUnixNs⟩

/-- A connection of this address with a peer that has given its hello. -/
def pinnedPeer (peerAddr : String) (openedAtUnixNs : Int64) (id : Hash32) (key : Option Hash32) :
    PeerConnection :=
  ⟨.established, some id, key, peerAddr, openedAtUnixNs⟩

/-- A dial answered with this hello makes its sender an established peer. -/
def ConnectPins (signatures : Signatures) (f : FederationState) (ourSubstrateId : Hash32)
    (peerAddr : String) (openedAtUnixNs : Int64) (payload : List (String × Value)) (id : Hash32)
    (key : Option Hash32) : Prop :=
  ∀ requestId,
    let r := f.connectPeer signatures ourSubstrateId
      (.answered peerAddr openedAtUnixNs requestId payload)
    (∃ tip v, r.1 = .ok (.pinned id peerAddr tip key v)) ∧
      r.2.peers = f.peers ++ [pinnedPeer peerAddr openedAtUnixNs id key]

/-- A connection that opens with this hello makes its sender an established peer. -/
def HelloPins (signatures : Signatures) (acceptLegacyPeers : Bool) (ourSubstrateId : Hash32)
    (peerAddr : String) (openedAtUnixNs : Int64) (payload : List (String × Value)) (id : Hash32)
    (key : Option Hash32) : Prop :=
  ∀ requestId,
    let turn := progressHello signatures acceptLegacyPeers ourSubstrateId
      (.greeting requestId payload) (arrived peerAddr openedAtUnixNs)
    (∃ tip v, turn.events = [.pinned id peerAddr tip key v]) ∧
      turn.peer = pinnedPeer peerAddr openedAtUnixNs id key ∧ turn.remove = false

theorem connectPeer_answered {requestId : UInt64} :
    f.connectPeer signatures ourSubstrateId (.answered peerAddr openedAtUnixNs requestId payload) =
      match parseFedHelloPayload payload with
      | .error e => (.error (.protocol e), f)
      | .ok parsed =>
        let r := f.connectHello signatures ourSubstrateId openedAtUnixNs peerAddr parsed
        (.ok r.1, r.2) := by
  have hdial : dialHello (.answered peerAddr openedAtUnixNs requestId payload) =
      (parseFedHelloPayload payload).mapError .protocol >>= fun p => .ok (peerAddr, p) := rfl
  unfold FederationState.connectPeer
  rw [hdial]
  cases parseFedHelloPayload payload <;> rfl

theorem connectHello_pins {parsed : ParsedFedHello} {v : Bool}
    (hv : admitHello signatures f.acceptLegacyPeers parsed = .ok v)
    (hself : parsed.peerSubstrateId ≠ ourSubstrateId)
    (hnew : parsed.peerSubstrateId ∉ f.peerIds) :
    f.connectHello signatures ourSubstrateId openedAtUnixNs peerAddr parsed =
      (.pinned parsed.peerSubstrateId peerAddr parsed.peerDagTip (parsed.pinnedSigner v) v,
        { f with peers := f.peers ++ [pinnedPeer peerAddr openedAtUnixNs parsed.peerSubstrateId
            (parsed.pinnedSigner v)] }) := by
  have hfind : f.peers.find? (·.peerSubstrateId = some parsed.peerSubstrateId) = none := by
    refine List.find?_eq_none.2 fun p hp => ?_
    have : p.peerSubstrateId ≠ some parsed.peerSubstrateId := fun h =>
      hnew (List.mem_filterMap.2 ⟨p, hp, h⟩)
    simpa using this
  unfold FederationState.connectHello
  rw [hv]
  dsimp only
  rw [if_neg hself, hfind]
  rfl

theorem of_connectHello_pinned {parsed : ParsedFedHello} {addr : String} {tip : Option Hash32}
    {w : Bool} (h : (f.connectHello signatures ourSubstrateId openedAtUnixNs peerAddr parsed).1 =
      .pinned id addr tip key w) :
    ∃ v, admitHello signatures f.acceptLegacyPeers parsed = .ok v ∧ id = parsed.peerSubstrateId ∧
      key = parsed.pinnedSigner v ∧ id ≠ ourSubstrateId ∧ id ∉ f.peerIds := by
  unfold FederationState.connectHello at h
  cases hadm : admitHello signatures f.acceptLegacyPeers parsed with
  | error reason =>
    rw [hadm] at h
    cases h
  | ok v =>
    rw [hadm] at h
    dsimp only at h
    by_cases hself : parsed.peerSubstrateId = ourSubstrateId
    · rw [if_pos hself] at h
      cases h
    · rw [if_neg hself] at h
      cases hfind : f.peers.find? (·.peerSubstrateId = some parsed.peerSubstrateId) with
      | some existing =>
        rw [hfind] at h
        dsimp only at h
        split at h
        · cases h
        · cases h
      | none =>
        rw [hfind] at h
        cases h
        refine ⟨_, rfl, rfl, rfl, hself, fun hmem => ?_⟩
        obtain ⟨p, hp, hid⟩ := List.mem_filterMap.1 hmem
        have := List.find?_eq_none.1 hfind p hp
        simp [hid] at this

/-- A dial pins whoever answers it with an admissible hello and is not this substrate, nor
connected. -/
theorem connectPins_iff :
    ConnectPins signatures f ourSubstrateId peerAddr openedAtUnixNs payload id key ↔
      ∃ parsed v, parseFedHelloPayload payload = .ok parsed ∧
        admitHello signatures f.acceptLegacyPeers parsed = .ok v ∧ id = parsed.peerSubstrateId ∧
        key = parsed.pinnedSigner v ∧ id ≠ ourSubstrateId ∧ id ∉ f.peerIds := by
  unfold ConnectPins
  simp only [connectPeer_answered]
  cases hparse : parseFedHelloPayload payload with
  | error e =>
    refine ⟨fun h => ?_, fun ⟨_, _, h, _⟩ => by cases h⟩
    obtain ⟨⟨tip, v, hr⟩, -⟩ := h 0
    cases hr
  | ok parsed =>
    refine ⟨fun h => ?_, ?_⟩
    · obtain ⟨⟨tip, v, hr⟩, -⟩ := h 0
      obtain ⟨w, hw⟩ := of_connectHello_pinned (Except.ok.inj hr)
      exact ⟨parsed, w, rfl, hw⟩
    · rintro ⟨_, v, hp, hadm, rfl, rfl, hself, hnew⟩ requestId
      cases hp
      dsimp only
      rw [connectHello_pins hadm hself hnew]
      exact ⟨⟨_, _, rfl⟩, rfl⟩

theorem progressHello_greeting {acceptLegacyPeers : Bool} {requestId : UInt64}
    {parsed : ParsedFedHello} (hparse : parseFedHelloPayload payload = .ok parsed) :
    progressHello signatures acceptLegacyPeers ourSubstrateId (.greeting requestId payload)
        (arrived peerAddr openedAtUnixNs) =
      greet signatures acceptLegacyPeers ourSubstrateId (.ok ()) (arrived peerAddr openedAtUnixNs)
        parsed := by
  unfold progressHello
  rw [if_neg (by simp [arrived])]
  simp only [Wire.greeting, ne_eq, not_true_eq_false, if_false, hparse]

theorem greet_pins {acceptLegacyPeers : Bool} {parsed : ParsedFedHello} {v : Bool}
    (hversion : federationVersionsInteroperable federationProtocolVersion parsed.protocolVersion)
    (hv : admitHello signatures acceptLegacyPeers parsed = .ok v)
    (hself : parsed.peerSubstrateId ≠ ourSubstrateId) :
    greet signatures acceptLegacyPeers ourSubstrateId (.ok ()) (arrived peerAddr openedAtUnixNs)
        parsed =
      ⟨pinnedPeer peerAddr openedAtUnixNs parsed.peerSubstrateId (parsed.pinnedSigner v),
        [.pinned parsed.peerSubstrateId peerAddr parsed.peerDagTip (parsed.pinnedSigner v) v],
        false⟩ := by
  unfold greet
  rw [hversion, hv]
  dsimp only [Bool.not_true]
  rw [if_neg (by simp), if_neg hself]
  rfl

theorem of_greet_kept {acceptLegacyPeers : Bool} {parsed : ParsedFedHello}
    (h : (greet signatures acceptLegacyPeers ourSubstrateId (.ok ())
      (arrived peerAddr openedAtUnixNs) parsed).remove = false) :
    federationVersionsInteroperable federationProtocolVersion parsed.protocolVersion ∧
      (∃ v, admitHello signatures acceptLegacyPeers parsed = .ok v) ∧
      parsed.peerSubstrateId ≠ ourSubstrateId := by
  unfold greet at h
  split at h
  · cases h
  · rename_i hversion
    split at h
    · cases h
    · rename_i v hv
      split at h
      · cases h
      · rename_i hself
        exact ⟨by simpa using hversion, ⟨v, hv⟩, hself⟩

/-- A connection pins whoever opens it with an admissible hello of this version and is not this
substrate. -/
theorem helloPins_iff {acceptLegacyPeers : Bool} :
    HelloPins signatures acceptLegacyPeers ourSubstrateId peerAddr openedAtUnixNs payload id key ↔
      ∃ parsed v, parseFedHelloPayload payload = .ok parsed ∧
        federationVersionsInteroperable federationProtocolVersion parsed.protocolVersion ∧
        admitHello signatures acceptLegacyPeers parsed = .ok v ∧ id = parsed.peerSubstrateId ∧
        key = parsed.pinnedSigner v ∧ id ≠ ourSubstrateId := by
  refine ⟨fun h => ?_, ?_⟩
  · obtain ⟨⟨tip, w, hevents⟩, -, hkept⟩ := h 0
    cases hparse : parseFedHelloPayload payload with
    | error e =>
      unfold progressHello at hkept
      simp [Wire.greeting, arrived, hparse, Turn.failed] at hkept
    | ok parsed =>
      rw [progressHello_greeting hparse] at hkept hevents
      obtain ⟨hversion, ⟨v, hv⟩, hself⟩ := of_greet_kept hkept
      rw [greet_pins hversion hv hself] at hevents
      cases hevents
      exact ⟨parsed, _, rfl, hversion, hv, rfl, rfl, hself⟩
  · rintro ⟨parsed, v, hparse, hversion, hadm, rfl, rfl, hself⟩ requestId
    dsimp only
    rw [progressHello_greeting hparse, greet_pins hversion hadm hself]
    exact ⟨⟨_, _, rfl⟩, rfl, rfl⟩

/-- Whoever is pinned by answering a dial would be pinned by connecting, exactly where the hello is
of an interoperable version, or is refused in answer to the dial as well. -/
theorem dial_pins_as_connection_iff :
    (∀ id key,
      ConnectPins signatures f ourSubstrateId peerAddr openedAtUnixNs payload id key →
        HelloPins signatures f.acceptLegacyPeers ourSubstrateId peerAddr openedAtUnixNs payload id
          key) ↔
    ∀ parsed, parseFedHelloPayload payload = .ok parsed →
      federationVersionsInteroperable federationProtocolVersion parsed.protocolVersion ∨
      ¬ parsed.Admissible signatures f.acceptLegacyPeers ∨
      parsed.peerSubstrateId = ourSubstrateId ∨ parsed.peerSubstrateId ∈ f.peerIds := by
  refine ⟨fun h parsed hparse => ?_, fun h id key hpins => ?_⟩
  · by_cases hadm : parsed.Admissible signatures f.acceptLegacyPeers
    · by_cases hself : parsed.peerSubstrateId = ourSubstrateId
      · exact .inr (.inr (.inl hself))
      · by_cases hnew : parsed.peerSubstrateId ∈ f.peerIds
        · exact .inr (.inr (.inr hnew))
        · obtain ⟨v, hv⟩ := admitHello_ok_iff.2 hadm
          have hpins := h _ _ (connectPins_iff.2 ⟨parsed, v, hparse, hv, rfl, rfl, hself, hnew⟩)
          obtain ⟨parsed', _, hparse', hversion, _⟩ := helloPins_iff.1 hpins
          rw [hparse] at hparse'
          cases hparse'
          exact .inl hversion
    · exact .inr (.inl hadm)
  · obtain ⟨parsed, v, hparse, hv, rfl, rfl, hself, hnew⟩ := connectPins_iff.1 hpins
    rcases h parsed hparse with hversion | hadm | hown | hmem
    · exact helloPins_iff.2 ⟨parsed, v, hparse, hversion, hv, rfl, rfl, hself⟩
    · exact absurd (admitHello_ok_iff.1 ⟨v, hv⟩) hadm
    · exact absurd hown hself
    · exact absurd hmem hnew

end

/-- A hello of version 2, signed. -/
def laterHello : List (String × Value) :=
  [("peer_substrate_id", .bytes (.replicate 32 7)), ("protocol_version", .uint 2),
    ("signer_pubkey", .bytes (.replicate 32 1)), ("hello_signature", .bytes (.replicate 64 0))]

/-- Answering a dial, it is pinned with its key; opening a connection, it is not. -/
theorem later_version_pinned_by_dial : ∃ id key,
    ConnectPins smallEnv.signatures (.new false) ⟨.replicate 32 9, rfl⟩ "peer:1" 0 laterHello id
      key ∧
    ¬ HelloPins smallEnv.signatures false ⟨.replicate 32 9, rfl⟩ "peer:1" 0 laterHello id key := by
  have hparse : parseFedHelloPayload laterHello = .ok
      ⟨⟨.replicate 32 7, rfl⟩, none, 2, some ⟨.replicate 32 1, rfl⟩, some ⟨.replicate 64 0, rfl⟩⟩ := by
    decide
  refine ⟨_, _, connectPins_iff.2 ⟨_, true, hparse, by decide, rfl, rfl, by decide,
    by decide⟩, fun h => ?_⟩
  obtain ⟨parsed, -, hparse', hversion, -⟩ := helloPins_iff.1 h
  rw [hparse] at hparse'
  cases hparse'
  revert hversion
  decide

end Myco.Federation
