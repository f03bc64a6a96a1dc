import Myco.Consensus.FloorLog
import Myco.Federation.Handshakes

/-!
# Hellos on a network that replays

A `Network` is a substrate, the connection that each of its peers is on, and the hellos that the
holders of keys have made, each for a connection. Whoever is on the network may open connections and
say on them what it likes, except that it cannot sign for others: a signature that verifies is on a
message that the holder of the key has signed for some connection.

What a hello signs says neither for which connection it was made nor for whom. So a key is pinned for
the party that made the hello just if nobody says a hello again on another connection
(`pins_authentic_iff`).
-/

namespace Myco.Consensus

open Myco.Lib Myco.Canonical Myco.Schema Myco.Substrate Myco.Federation

variable {env : Env}

/-! ### Hellos -/

/-- What the holder of a key has signed, and the connection that it was for. -/
structure MadeHello where
  conn : Nat
  signerPubkey : Hash32
  substrateId : Hash32
  dagTip : Option Hash32
  protocolVersion : UInt64

def MadeHello.signed (h : MadeHello) : Bytes :=
  buildFedHelloSigningMessage h.substrateId h.dagTip h.protocolVersion

/-- What the signature of a hello is checked on. -/
def signedMessage (parsed : ParsedFedHello) : Bytes :=
  buildFedHelloSigningMessage parsed.peerSubstrateId parsed.peerDagTip parsed.protocolVersion

/-- The holder of the key has made a hello of this substrate for this connection. -/
def MadeFor (made : List MadeHello) (conn : Nat) (id key : Hash32) : Prop :=
  ∃ h ∈ made, h.conn = conn ∧ h.signerPubkey = key ∧ h.substrateId = id

def helloEntries (id : Hash32) (tip : Option Hash32) (version : UInt64) : List (String × Value) :=
  [("context", .string "myco-fed-hello-v1"), ("peer_substrate_id", hashValue id)] ++
    entryIf "dag_tip" hashValue tip ++ [("protocol_version", .uint version)]

theorem helloEntries_fits {id : Hash32} {tip : Option Hash32} {version : UInt64} :
    (mapOf (helloEntries id tip version)).canonical.Every FitsU64 := by
  have hb : ∀ x : Hash32, x.bytes.length < 2 ^ 64 := fun x => by simp [x.length_eq]
  refine mapOf_fits (by cases tip <;> simp [helloEntries, entryIf]) fun e he => ?_
  simp only [helloEntries, List.mem_append, List.mem_cons, List.not_mem_nil, or_false,
    mem_entryIf] at he
  rcases he with ((rfl | rfl) | ⟨tip, -, rfl⟩) | rfl
  · exact ⟨by decide, by simp only [Value.canonical, Tlv.Every, FitsU64, Leb.value_ofNat]; decide⟩
  · refine ⟨(by decide : (utf8 "peer_substrate_id").length < 2 ^ 64), ?_⟩
    simp only [hashValue, Value.canonical, Tlv.Every, FitsU64, Leb.value_ofNat, hb]
  · refine ⟨(by decide : (utf8 "dag_tip").length < 2 ^ 64), ?_⟩
    simp only [hashValue, Value.canonical, Tlv.Every, FitsU64, Leb.value_ofNat, hb]
  · exact ⟨(by decide : (utf8 "protocol_version").length < 2 ^ 64), trivial⟩

/-- A hello is signed for one substrate. -/
theorem helloMessage_inj {id id' : Hash32} {tip tip' : Option Hash32} {version version' : UInt64}
    (h : buildFedHelloSigningMessage id tip version =
      buildFedHelloSigningMessage id' tip' version') : id = id' := by
  have hwf : ∀ (id : Hash32) tip version, ∀ e ∈ helloEntries id tip version, e.2.WF := by
    intro id tip version e he
    simp only [helloEntries, List.mem_append, List.mem_cons, List.not_mem_nil, or_false,
      mem_entryIf] at he
    rcases he with ((rfl | rfl) | ⟨tip, -, rfl⟩) | rfl <;> trivial
  have hget := cbEncode_inj (hwf id tip version) (hwf id' tip' version') helloEntries_fits
    helloEntries_fits h "peer_substrate_id"
  simp [helloEntries, get_mapOf, OrdMap.get_cons, OrdMap.get_append, get_entryIf,
    hashValue] at hget
  exact Hash32.ext hget

/-! ### Connections -/

/-- A peer, and the connection that it is on. -/
abbrev Line := PeerConnection × Nat

structure Network (env : Env) where
  state : ServerState env
  lines : List Line
  made : List MadeHello
  /-- the connections there have been -/
  seen : List Nat
  paired : lines.map Prod.fst = state.federation.peers

/-- The peers that are new in `f`, on the connections that are opened. -/
def extendLines (lines : List Line) (f : FederationState) (opened : List Nat) : List Line :=
  lines ++ (f.peers.drop lines.length).zip opened

/-- A round over the peers. -/
def progressLines (turn : Wire → PeerConnection → Turn) (wires : Nat → Wire) (lines : List Line) :
    List Line :=
  sweep (lines.mapIdx fun i l =>
    (((turn (wires i) l.1).peer, l.2), (turn (wires i) l.1).remove))

/-- What an event polls. -/
def Event.polled (s : ServerState env) : Event → Option PollInput
  | .call (.poll input _) _ => some input
  | .call (.tick input) _ =>
    if s.federation.listener.isNone && s.federation.peers.isEmpty then none else some input
  | _ => none

/-- Whom an event dials. -/
def Event.dialled (s : ServerState env) : Event → Option Dial
  | .call (.connectPeer dial request) _ => if names request "remote_addr" then some dial else none
  | .call (.linkToParent dial _) _ => if (parentToLink s).isSome then some dial else none
  | _ => none

def Event.restarts : Event → Bool
  | .call (.restart _) _ => true
  | _ => false

section

variable (s : ServerState env)

/-- The peers and their connections when a poll looks at them. -/
def waitingLines (lines : List Line) (input : PollInput) (opened : List Nat) : List Line :=
  extendLines lines (s.federation.acceptPending input.accepted).2 opened

def helloTurn (w : Wire) (p : PeerConnection) : Turn :=
  progressHello env.signatures s.federation.acceptLegacyPeers (ownId s) w p

def establishedTurn (w : Wire) (p : PeerConnection) : Turn :=
  progressEstablished env.blake3 s.ledger.dag s.revokedFederationPeers w p

def pollLines (lines : List Line) (input : PollInput) (opened : List Nat) : List Line :=
  let waiting := waitingLines s lines input opened
  if acceptFails s input then waiting
  else progressLines (establishedTurn s) input.sockets.requests
    (progressLines (helloTurn s) input.sockets.hellos waiting)

def linesAfter (lines : List Line) (e : Event) (opened : List Nat) : List Line :=
  match e.polled s, e.dialled s with
  | some input, _ => pollLines s lines input opened
  | none, some dial => extendLines lines (dialChange s dial).federation opened
  | none, none => if e.restarts then [] else lines

/-- The connections that an event opens, as many as it finds. -/
def newcomers (e : Event) : Nat :=
  match e.polled s, e.dialled s with
  | some input, _ =>
    (s.federation.acceptPending input.accepted).2.peers.length - s.federation.peers.length
  | none, some dial => (dialChange s dial).federation.peers.length - s.federation.peers.length
  | none, none => 0

end

section

variable {s : ServerState env} {lines : List Line} {f : FederationState} {opened : List Nat}

theorem extendLines_paired (h : lines.map Prod.fst <+: f.peers)
    (hlen : opened.length = f.peers.length - lines.length) :
    (extendLines lines f opened).map Prod.fst = f.peers := by
  obtain ⟨ps, hps⟩ := h
  have hdrop : f.peers.drop lines.length = ps := by
    rw [← hps, ← List.length_map (f := Prod.fst), List.drop_left]
  rw [extendLines, List.map_append, hdrop, List.map_fst_zip, hps]
  rw [hlen, ← hps, List.length_append, List.length_map]
  omega

theorem progressLines_paired {turn : Wire → PeerConnection → Turn} {wires : Nat → Wire}
    (h : lines.map Prod.fst = f.peers) :
    (progressLines turn wires lines).map Prod.fst = (f.progress turn wires).2.peers := by
  unfold progressLines FederationState.progress
  dsimp only
  rw [← sweep_map, ← h]
  congr 1
  refine List.ext_getElem (by simp) fun i h1 h2 => ?_
  simp

/-- A connection that is left is one that was there, after its turn. -/
theorem mem_progressLines {turn : Wire → PeerConnection → Turn} {wires : Nat → Wire} {l : Line}
    (h : l ∈ progressLines turn wires lines) : ∃ i p, lines[i]? = some (p, l.2) ∧
      (turn (wires i) p).peer = l.1 ∧ (turn (wires i) p).remove = false := by
  have hmem := (sweep_perm.mem_iff).1 h
  simp only [unmarked, List.mem_map, List.mem_filter] at hmem
  obtain ⟨w, ⟨hw, hkept⟩, rfl⟩ := hmem
  obtain ⟨i, hi, rfl⟩ := List.mem_mapIdx.1 hw
  exact ⟨i, _, List.getElem?_eq_getElem hi, rfl, by simpa using hkept⟩

variable {e : Event} {input : PollInput} {dial : Dial}

theorem change_of_polled (h : e.polled s = some input) : e.change s = pollChange s input := by
  rcases e with ⟨c, answer⟩ | _
  · cases c with
    | poll => cases h; rfl
    | tick =>
      simp only [Event.polled] at h
      split at h
      · cases h
      · rename_i hactive
        cases h
        exact if_neg hactive
    | _ => cases h
  · cases h

theorem change_of_dialled (h : e.dialled s = some dial) :
    (e.change s).federation = (dialChange s dial).federation := by
  rcases e with ⟨c, answer⟩ | _
  · cases c with
    | connectPeer dial' request =>
      simp only [Event.dialled] at h
      split at h
      · rename_i hnames
        cases h
        show (connectChange s dial request).federation = _
        rw [connectChange, if_pos hnames]
      · cases h
    | linkToParent dial' request =>
      simp only [Event.dialled] at h
      split at h
      · rename_i hparent
        cases h
        obtain ⟨parent, hparent⟩ := Option.isSome_iff_exists.1 hparent
        show (linkChange s dial).federation = _
        rw [linkChange, hparent]
      · cases h
    | _ => cases h
  · cases h

theorem change_of_neither (hpolled : e.polled s = none) (hdialled : e.dialled s = none) :
    (e.change s).federation.peers = if e.restarts then [] else s.federation.peers := by
  rcases e with ⟨c, answer⟩ | _
  · cases c with
    | openListener bound request =>
      show (openListenerChange s bound request).federation.peers = s.federation.peers
      unfold openListenerChange
      split
      · cases bound <;> rfl
      · rfl
    | connectPeer dial request =>
      simp only [Event.dialled] at hdialled
      split at hdialled
      · cases hdialled
      · rename_i hnames
        show (connectChange s dial request).federation.peers = s.federation.peers
        rw [connectChange, if_neg hnames]
        rfl
    | linkToParent dial request =>
      simp only [Event.dialled] at hdialled
      split at hdialled
      · cases hdialled
      · rename_i hparent
        show (linkChange s dial).federation.peers = s.federation.peers
        rw [Option.not_isSome_iff_eq_none] at hparent
        rw [linkChange_of_none hparent]
        rfl
    | tick input =>
      simp only [Event.polled] at hpolled
      split at hpolled
      · rename_i hidle
        show (tickChange s input).federation.peers = s.federation.peers
        rw [tickChange, if_pos hidle]
        rfl
      · cases hpolled
    | poll => cases hpolled
    | closeListener | revoke | propose | submit | query | restart => rfl
  · rfl

theorem acceptPending_legacy : (s.federation.acceptPending input.accepted).2.acceptLegacyPeers =
    s.federation.acceptLegacyPeers := by
  unfold FederationState.acceptPending
  cases s.federation.listener with
  | none => rfl
  | some l => cases input.accepted.error <;> rfl

theorem serve_peers : (serve s input).2.peers =
    if acceptFails s input then (s.federation.acceptPending input.accepted).2.peers
    else (FederationState.progress (establishedTurn s) input.sockets.requests
      (FederationState.progress (helloTurn s) input.sockets.hellos
        (s.federation.acceptPending input.accepted).2).2).2.peers := by
  have hlegacy := @acceptPending_legacy _ s input
  split
  · rename_i hfails
    obtain ⟨-, -, hf⟩ := serve_of_acceptFails hfails
    rw [hf]
  · rename_i hok
    obtain ⟨r, hr⟩ := serve_of_not_acceptFails hok
    unfold serve at hr ⊢
    generalize s.federation.acceptPending input.accepted = accepted at hr hlegacy ⊢
    obtain ⟨outcome, f⟩ := accepted
    cases outcome with
    | error e => cases hr
    | ok n =>
      dsimp only at hlegacy ⊢
      unfold FederationState.progressPeers FederationState.progressAwaitingHelloPeers
      rw [hlegacy]
      rfl

theorem linesAfter_paired (hpaired : lines.map Prod.fst = s.federation.peers)
    (hlen : opened.length = newcomers s e) :
    (linesAfter s lines e opened).map Prod.fst = (e.change s).federation.peers := by
  have hlength : lines.length = s.federation.peers.length := by
    rw [← hpaired, List.length_map]
  unfold linesAfter
  unfold newcomers at hlen
  cases hpolled : e.polled s with
  | some input =>
    rw [hpolled] at hlen
    dsimp only at hlen ⊢
    have hwaiting : (waitingLines s lines input opened).map Prod.fst =
        (s.federation.acceptPending input.accepted).2.peers := by
      refine extendLines_paired ?_ (by rw [hlen, hlength])
      obtain ⟨ps, hps, -⟩ := @acceptPending_peers s.federation input.accepted
      rw [hps, hpaired]
      exact List.prefix_append _ _
    rw [change_of_polled hpolled]
    show _ = (serve s input).2.peers
    rw [serve_peers, pollLines]
    split
    · exact hwaiting
    · exact progressLines_paired (progressLines_paired hwaiting)
  | none =>
    rw [hpolled] at hlen
    cases hdialled : e.dialled s with
    | some dial =>
      rw [hdialled] at hlen
      dsimp only at hlen ⊢
      rw [change_of_dialled hdialled]
      refine extendLines_paired ?_ (by rw [hlen, hlength])
      rw [hpaired]
      rcases @dialChange_cases _ s dial with h | ⟨id, key, addr, h, -⟩
      · rw [h]
        exact List.prefix_rfl
      · rw [h]
        exact List.prefix_append _ _
    | none =>
      dsimp only
      rw [change_of_neither hpolled hdialled]
      split
      · rfl
      · exact hpaired

end

/-! ### Hellos that arrive, and keys that are pinned -/

/-- A connection that waits for its hello has it. -/
def Reads (w : Wire) (p : PeerConnection) (parsed : ParsedFedHello) : Prop :=
  p.state = .awaitingHello ∧ ∃ m, w.frame = .ok (some m) ∧ m.messageType = "fed_hello" ∧
    parseFedHelloPayload m.payload = .ok parsed

/-- The signature of the hello verifies, and the hello is not this substrate's own. -/
structure Convinces (s : ServerState env) (parsed : ParsedFedHello) : Prop where
  verifies : verifyFedHelloSignature env.signatures parsed = .ok true
  other : parsed.peerSubstrateId ≠ ownId s

/-- A connection that is polled and waits for its hello has it, and it is accepted. -/
structure Welcomes (s : ServerState env) (w : Wire) (p : PeerConnection)
    (parsed : ParsedFedHello) : Prop where
  reads : Reads w p parsed
  version : federationVersionsInteroperable federationProtocolVersion parsed.protocolVersion
  convinces : Convinces s parsed
  written : w.written = .ok ()

/-- A connection that is polled and waits for its hello has it, and it is admitted, as one whose
signature verifies (`v`) or as a legacy peer's. -/
structure AdmitsAs (s : ServerState env) (w : Wire) (p : PeerConnection) (parsed : ParsedFedHello)
    (v : Bool) : Prop where
  reads : Reads w p parsed
  version : federationVersionsInteroperable federationProtocolVersion parsed.protocolVersion
  admitted : admitHello env.signatures s.federation.acceptLegacyPeers parsed = .ok v
  other : parsed.peerSubstrateId ≠ ownId s
  written : w.written = .ok ()

/-- An event lets `R` be of the wire and the peer of a connection that it polls. -/
def Polls (n : Network env) (e : Event) (opened : List Nat) (conn : Nat)
    (R : Wire → PeerConnection → Prop) : Prop :=
  ∃ input i p, e.polled n.state = some input ∧ ¬ acceptFails n.state input ∧
    (waitingLines n.state n.lines input opened)[i]? = some (p, conn) ∧ R (input.sockets.hellos i) p

/-- An event dials, on this connection. -/
def Dials (n : Network env) (e : Event) (opened : List Nat) (conn : Nat) (R : Dial → Prop) : Prop :=
  ∃ dial, e.dialled n.state = some dial ∧ opened = [conn] ∧ R dial

/-- A hello arrives on a connection. -/
def Arrives (n : Network env) (e : Event) (opened : List Nat) (conn : Nat)
    (parsed : ParsedFedHello) : Prop :=
  Polls n e opened conn (fun w p => Reads w p parsed) ∨
  Dials n e opened conn fun dial => ∃ addr, dialHello dial = .ok (addr, parsed)

/-- A hello arrives on a connection, and it is accepted, with its key. -/
def Accepts (n : Network env) (e : Event) (opened : List Nat) (conn : Nat)
    (parsed : ParsedFedHello) : Prop :=
  Polls n e opened conn (fun w p => Welcomes n.state w p parsed) ∨
  Dials n e opened conn fun dial => (∃ addr, dialHello dial = .ok (addr, parsed)) ∧
    Convinces n.state parsed ∧ parsed.peerSubstrateId ∉ n.state.federation.peerIds

/-- The peer of a connection is pinned with a key that has been verified. -/
def PinsVerified (n : Network env) (e : Event) (opened : List Nat) (conn : Nat)
    (id key : Hash32) : Prop :=
  Polls n e opened conn (fun w p => ∃ addr tip,
    .pinned id addr tip (some key) true ∈ (helloTurn n.state w p).events) ∨
  Dials n e opened conn fun dial => ∃ addr tip,
    (n.state.federation.connectPeer env.signatures (ownId n.state) dial).1 =
      .ok (.pinned id addr tip (some key) true)

theorem Accepts.arrives {n : Network env} {e : Event} {opened : List Nat} {conn : Nat}
    {parsed : ParsedFedHello} (h : Accepts n e opened conn parsed) :
    Arrives n e opened conn parsed := by
  rcases h with ⟨input, i, p, h1, h2, h3, h4⟩ | ⟨dial, h1, h2, h3, -⟩
  · exact .inl ⟨input, i, p, h1, h2, h3, h4.reads⟩
  · exact .inr ⟨dial, h1, h2, h3⟩

section

variable {s : ServerState env} {w : Wire} {p : PeerConnection} {parsed : ParsedFedHello}
  {id key : Hash32}

theorem admitHello_true {acceptLegacyPeers : Bool} :
    admitHello env.signatures acceptLegacyPeers parsed = .ok true ↔
      verifyFedHelloSignature env.signatures parsed = .ok true := by
  unfold admitHello
  cases verifyFedHelloSignature env.signatures parsed with
  | error reason => simp
  | ok v => cases v <;> cases acceptLegacyPeers <;> simp

theorem Welcomes.helloTurn (h : Welcomes s w p parsed) : helloTurn s w p =
    ⟨{ p with
        state := .established
        peerSubstrateId := some parsed.peerSubstrateId
        pinnedSignerPubkey := parsed.signerPubkey },
      [.pinned parsed.peerSubstrateId p.remoteAddr parsed.peerDagTip parsed.signerPubkey true],
      false⟩ := by
  obtain ⟨⟨hstate, m, hframe, htype, hparse⟩, hversion, ⟨hverifies, hother⟩, hwritten⟩ := h
  unfold Consensus.helloTurn progressHello
  rw [if_neg (not_not.2 hstate), hframe]
  dsimp only
  rw [if_neg (not_not.2 htype), hparse]
  dsimp only
  unfold greet
  rw [hversion, admitHello_true.2 hverifies, hwritten]
  dsimp only [Bool.not_true]
  rw [if_neg (by simp), if_neg hother]
  rfl

/-- A connection that pins its peer has read a hello that is admitted, with the key that is pinned. -/
theorem admitsAs_of_pinned {addr : String} {tip pinned : Option Hash32} {v : Bool}
    (h : .pinned id addr tip pinned v ∈ (helloTurn s w p).events) :
    ∃ parsed, AdmitsAs s w p parsed v ∧ parsed.peerSubstrateId = id ∧
      parsed.pinnedSigner v = pinned := by
  unfold helloTurn progressHello at h
  split at h
  · cases h
  · rename_i hstate
    split at h
    · cases List.mem_singleton.1 h
    · cases h
    · rename_i m hframe
      split at h
      · cases List.mem_singleton.1 h
      · rename_i htype
        split at h
        · cases List.mem_singleton.1 h
        · rename_i parsed hparse
          unfold greet at h
          split at h
          · cases List.mem_singleton.1 h
          · rename_i hversion
            split at h
            · cases List.mem_singleton.1 h
            · rename_i w' hadmit
              split at h
              · cases List.mem_singleton.1 h
              · rename_i hother
                split at h
                · cases List.mem_singleton.1 h
                · rename_i hwritten
                  have hevent := List.mem_singleton.1 h
                  simp only [PollPeerEvent.pinned.injEq] at hevent
                  obtain ⟨hid, -, -, hkey, rfl⟩ := hevent
                  exact ⟨parsed, ⟨⟨not_not.1 hstate, m, hframe, not_not.1 htype, hparse⟩,
                    by simpa using hversion, hadmit, hother, hwritten⟩, hid.symm, hkey.symm⟩

theorem welcomes_of_pinned {addr : String} {tip : Option Hash32}
    (h : .pinned id addr tip (some key) true ∈ (helloTurn s w p).events) :
    ∃ parsed, Welcomes s w p parsed ∧ parsed.peerSubstrateId = id ∧
      parsed.signerPubkey = some key := by
  obtain ⟨parsed, hadmits, hid, hkey⟩ := admitsAs_of_pinned h
  exact ⟨parsed, ⟨hadmits.reads, hadmits.version,
    ⟨admitHello_true.1 hadmits.admitted, hadmits.other⟩, hadmits.written⟩, hid, hkey⟩

theorem connectPeer_pinned_iff {dial : Dial} :
    (∃ addr tip, (s.federation.connectPeer env.signatures (ownId s) dial).1 =
      .ok (.pinned id addr tip (some key) true)) ↔
    ∃ parsed, (∃ addr, dialHello dial = .ok (addr, parsed)) ∧ Convinces s parsed ∧
      parsed.peerSubstrateId ∉ s.federation.peerIds ∧ parsed.peerSubstrateId = id ∧
      parsed.signerPubkey = some key := by
  unfold FederationState.connectPeer
  cases hdial : dialHello dial with
  | error e => simp
  | ok answer =>
    obtain ⟨addr, parsed⟩ := answer
    dsimp only
    constructor
    · rintro ⟨addr', tip, h⟩
      obtain ⟨v, hadmit, rfl, hkey, hother, hnew⟩ := of_connectHello_pinned (Except.ok.inj h)
      unfold ParsedFedHello.pinnedSigner at hkey
      split at hkey
      · rename_i hv
        subst hv
        exact ⟨parsed, ⟨addr, rfl⟩, ⟨admitHello_true.1 hadmit, hother⟩, hnew, rfl, hkey.symm⟩
      · cases hkey
    · rintro ⟨parsed', ⟨addr', haddr⟩, hconv, hnew, rfl, hkey⟩
      cases haddr
      rw [connectHello_pins (admitHello_true.2 hconv.verifies) hconv.other hnew]
      refine ⟨addr, parsed.peerDagTip, ?_⟩
      rw [← hkey]
      rfl

/-- Only a hello that has been verified lets a key be pinned. -/
theorem connectPeer_verified {dial : Dial} {addr : String} {tip : Option Hash32} {v : Bool}
    (h : (s.federation.connectPeer env.signatures (ownId s) dial).1 =
      .ok (.pinned id addr tip (some key) v)) : v = true := by
  unfold FederationState.connectPeer at h
  split at h
  · cases h
  · unfold FederationState.connectHello at h
    dsimp only at h
    split at h
    · cases h
    · rename_i w hadmit
      split at h
      · cases h
      · split at h
        · split at h <;> cases h
        · have hout := Except.ok.inj h
          simp only [ConnectPeerOutcome.pinned.injEq] at hout
          obtain ⟨-, -, -, hkey, rfl⟩ := hout
          unfold ParsedFedHello.pinnedSigner at hkey
          split at hkey
          · rename_i hw
            exact hw
          · cases hkey

/-- A connection that is kept has its peer as it was, or has welcomed it, or has pinned no key. -/
theorem helloTurn_kept (h : (helloTurn s w p).remove = false) :
    (helloTurn s w p).peer = p ∨ (∃ parsed, Welcomes s w p parsed) ∨
      p.state = .awaitingHello ∧
        (helloTurn s w p).peer.pinnedSignerPubkey = p.pinnedSignerPubkey := by
  generalize hturn : helloTurn s w p = turn at h ⊢
  unfold helloTurn progressHello at hturn
  split at hturn
  · subst hturn
    exact .inl rfl
  · rename_i hstate
    split at hturn
    · subst hturn
      cases h
    · subst hturn
      exact .inl rfl
    · rename_i m hframe
      split at hturn
      · subst hturn
        cases h
      · rename_i htype
        split at hturn
        · subst hturn
          cases h
        · rename_i parsed hparse
          unfold greet at hturn
          split at hturn
          · subst hturn
            cases h
          · rename_i hversion
            split at hturn
            · subst hturn
              cases h
            · rename_i v hadmit
              split at hturn
              · subst hturn
                cases h
              · rename_i hother
                split at hturn
                · subst hturn
                  cases h
                · rename_i hwritten
                  subst hturn
                  cases v with
                  | false => exact .inr (.inr ⟨not_not.1 hstate, rfl⟩)
                  | true => exact .inr (.inl ⟨parsed,
                      ⟨⟨not_not.1 hstate, m, hframe, not_not.1 htype, hparse⟩, by simpa using hversion,
                        ⟨admitHello_true.1 hadmit, hother⟩, hwritten⟩⟩)

end

/-- A key is pinned just where a hello under it is accepted. -/
theorem pinsVerified_iff {n : Network env} {e : Event} {opened : List Nat} {conn : Nat}
    {id key : Hash32} : PinsVerified n e opened conn id key ↔
      ∃ parsed, Accepts n e opened conn parsed ∧ parsed.peerSubstrateId = id ∧
        parsed.signerPubkey = some key := by
  constructor
  · rintro (⟨input, i, p, h1, h2, h3, addr, tip, hpin⟩ | ⟨dial, h1, h2, hpin⟩)
    · obtain ⟨parsed, hwelcomes, hid, hkey⟩ := welcomes_of_pinned hpin
      exact ⟨parsed, .inl ⟨input, i, p, h1, h2, h3, hwelcomes⟩, hid, hkey⟩
    · obtain ⟨parsed, hdial, hconv, hnew, hid, hkey⟩ := connectPeer_pinned_iff.1 hpin
      exact ⟨parsed, .inr ⟨dial, h1, h2, hdial, hconv, hnew⟩, hid, hkey⟩
  · rintro ⟨parsed, ⟨input, i, p, h1, h2, h3, hwelcomes⟩ | ⟨dial, h1, h2, hdial, hconv, hnew⟩, rfl,
      hkey⟩
    · refine .inl ⟨input, i, p, h1, h2, h3, p.remoteAddr, parsed.peerDagTip, ?_⟩
      rw [hwelcomes.helloTurn, hkey]
      exact List.mem_singleton.2 rfl
    · exact .inr ⟨dial, h1, h2, connectPeer_pinned_iff.2 ⟨parsed, hdial, hconv, hnew, rfl, hkey⟩⟩

/-! ### Runs -/

inductive Traffic where
  | made (hello : MadeHello)
  | event (e : Event) (opened : List Nat)

/-- Whoever says a hello that verifies under a key says what the holder of the key has signed. -/
def Unforged (n : Network env) (e : Event) (opened : List Nat) : Prop :=
  ∀ conn parsed pk sig, Arrives n e opened conn parsed → parsed.signerPubkey = some pk →
    parsed.helloSignature = some sig →
    env.signatures.verifySignature pk sig (signedMessage parsed) →
    ∃ h ∈ n.made, h.signerPubkey = pk ∧ h.signed = signedMessage parsed

/-- The holder of a key makes a hello, or something happens at the substrate, with new connections
for those that it opens. -/
inductive NetworkStep : Network env → Traffic → Network env → Prop
  | made {n : Network env} {hello : MadeHello} :
      NetworkStep n (.made hello) { n with made := hello :: n.made }
  | event {n n' : Network env} {e : Event} {opened : List Nat} : Step n.state e n'.state →
      opened.length = newcomers n.state e → opened.Nodup → (∀ c ∈ opened, c ∉ n.seen) →
      Unforged n e opened → n'.lines = linesAfter n.state n.lines e opened → n'.made = n.made →
      n'.seen = n.seen ++ opened → NetworkStep n (.event e opened) n'

/-- Whatever happens at the substrate, the network can follow. -/
theorem exists_networkStep {n : Network env} {e : Event} {t : ServerState env} {opened : List Nat}
    (h : Step n.state e t) (hlen : opened.length = newcomers n.state e) (hnodup : opened.Nodup)
    (hnew : ∀ c ∈ opened, c ∉ n.seen) (hun : Unforged n e opened) :
    ∃ n', NetworkStep n (.event e opened) n' ∧ n'.state = t ∧
      n'.lines = linesAfter n.state n.lines e opened ∧ n'.made = n.made ∧
      n'.seen = n.seen ++ opened := by
  have hpaired : (linesAfter n.state n.lines e opened).map Prod.fst = t.federation.peers := by
    rw [linesAfter_paired n.paired hlen, (step_does h).federation_eq]
  exact ⟨⟨t, _, n.made, n.seen ++ opened, hpaired⟩, .event h hlen hnodup hnew hun rfl rfl rfl, rfl,
    rfl, rfl, rfl⟩

/-- Every key that is pinned for a connection has made a hello for it. -/
def LiveAuthentic (n : Network env) : Prop :=
  ∀ p conn, (p, conn) ∈ n.lines → ∀ id key, p.peerSubstrateId = some id →
    p.pinnedSignerPubkey = some key → MadeFor n.made conn id key

/-- The step pins keys only for connections that they have made a hello for, and so are those that
are pinned afterwards. -/
def PinsAuthentic (n : Network env) (x : Traffic) (n' : Network env) : Prop :=
  (∀ e opened, x = .event e opened → ∀ conn id key, PinsVerified n e opened conn id key →
    MadeFor n.made conn id key) ∧ LiveAuthentic n'

/-- A hello is accepted on a connection that its signer has made none for, made for another. -/
def Replays (n : Network env) : Traffic → Prop
  | .made _ => False
  | .event e opened => ∃ conn parsed key, Accepts n e opened conn parsed ∧
      parsed.signerPubkey = some key ∧ ¬ MadeFor n.made conn parsed.peerSubstrateId key ∧
      ∃ h ∈ n.made, h.conn ≠ conn ∧ h.signerPubkey = key ∧ h.signed = signedMessage parsed

section

variable {n n' : Network env} {e : Event} {opened : List Nat} {conn : Nat} {id key : Hash32}
  {p : PeerConnection}

/-- A peer that is new when a poll has accepted has not said who it is. -/
theorem mem_waitingLines {input : PollInput}
    (h : (p, conn) ∈ waitingLines n.state n.lines input opened) :
    (p, conn) ∈ n.lines ∨ p.peerSubstrateId = none ∧ p.pinnedSignerPubkey = none := by
  rcases List.mem_append.1 h with h | h
  · exact .inl h
  · obtain ⟨ps, hps, hnew⟩ := @acceptPending_peers n.state.federation input.accepted
    have hdrop : (n.state.federation.acceptPending input.accepted).2.peers.drop n.lines.length =
        ps := by
      rw [hps, ← n.paired, ← List.length_map (f := Prod.fst), List.drop_left]
    rw [hdrop] at h
    exact .inr (hnew p (List.of_mem_zip h).1).2

/-- A peer that has been dialled is pinned with a key that has been verified, or was there before. -/
theorem mem_dialledLines {dial : Dial} (hdialled : e.dialled n.state = some dial)
    (hpolled : e.polled n.state = none) (hlen : opened.length = newcomers n.state e)
    (h : (p, conn) ∈ extendLines n.lines (dialChange n.state dial).federation opened)
    (hid : p.peerSubstrateId = some id) (hkey : p.pinnedSignerPubkey = some key) :
    (p, conn) ∈ n.lines ∨ PinsVerified n e opened conn id key := by
  rcases List.mem_append.1 h with h | h
  · exact .inl h
  · refine .inr ?_
    have hlength : n.lines.length = n.state.federation.peers.length := by
      rw [← n.paired, List.length_map]
    have hnew : opened.length = (dialChange n.state dial).federation.peers.length -
        n.state.federation.peers.length := by
      rw [hlen, newcomers, hpolled, hdialled]
    rw [hlength] at h
    have hcases := @connectPeer_cases env.signatures (ownId n.state) n.state.federation dial
    rcases hcases with ⟨hf, -⟩ | ⟨id', addr, tip, key', v, ho, -, -, -, hf⟩
    · rw [dialChange, hf, List.drop_length] at h
      cases h
    · rw [dialChange, hf, List.drop_left] at h
      rw [dialChange, hf, List.length_append, Nat.add_sub_cancel_left] at hnew
      obtain ⟨c, rfl⟩ := List.length_eq_one_iff.1 hnew
      obtain ⟨rfl, rfl⟩ := Prod.mk.inj (List.mem_singleton.1 h)
      cases hid
      cases hkey
      obtain rfl : v = true := connectPeer_verified ho
      exact .inr ⟨dial, hdialled, rfl, addr, tip, ho⟩

/-- A peer that has a key afterwards had it before, or the step has pinned it. -/
theorem mem_linesAfter (hs : ∀ p ∈ n.state.federation.peers, p.Sane (ownId n.state))
    (hlen : opened.length = newcomers n.state e)
    (h : (p, conn) ∈ linesAfter n.state n.lines e opened)
    (hid : p.peerSubstrateId = some id) (hkey : p.pinnedSignerPubkey = some key) :
    (p, conn) ∈ n.lines ∨ PinsVerified n e opened conn id key := by
  have hwaiting : ∀ input, (p, conn) ∈ waitingLines n.state n.lines input opened →
      (p, conn) ∈ n.lines := by
    intro input h
    refine (mem_waitingLines h).resolve_right fun ⟨hnone, _⟩ => ?_
    rw [hid] at hnone
    cases hnone
  unfold linesAfter at h
  cases hpolled : e.polled n.state with
  | some input =>
    rw [hpolled] at h
    unfold pollLines at h
    dsimp only at h
    split at h
    · exact .inl (hwaiting input h)
    · rename_i hok
      obtain ⟨j, q, hq, hturn, hkept⟩ := mem_progressLines h
      obtain rfl : p = q := hturn.symm.trans (progressEstablished_idle.2 hkept)
      obtain ⟨i, q, hi, hturn, hkept⟩ := mem_progressLines (List.mem_of_getElem? hq)
      dsimp only at hi hturn
      rcases helloTurn_kept hkept with hsame | ⟨parsed, hwelcomes⟩ | ⟨hstate, hunpinned⟩
      · obtain rfl : p = q := hturn.symm.trans hsame
        exact .inl (hwaiting input (List.mem_of_getElem? hi))
      · rw [hwelcomes.helloTurn] at hturn
        subst hturn
        exact .inr (pinsVerified_iff.2 ⟨parsed, .inl ⟨input, i, q, hpolled, hok, hi, hwelcomes⟩,
          Option.some.inj hid, hkey⟩)
      · have hnone : q.pinnedSignerPubkey = none := by
          rcases mem_waitingLines (List.mem_of_getElem? hi) with hq | ⟨-, hnone⟩
          · have hpeer : q ∈ n.state.federation.peers :=
              n.paired ▸ List.mem_map.2 ⟨_, hq, rfl⟩
            exact (hs q hpeer).unpinned hstate
          · exact hnone
        rw [hturn, hkey, hnone] at hunpinned
        cases hunpinned
  | none =>
    rw [hpolled] at h
    cases hdialled : e.dialled n.state with
    | some dial =>
      rw [hdialled] at h
      exact mem_dialledLines hdialled hpolled hlen h hid hkey
    | none =>
      rw [hdialled] at h
      dsimp only at h
      split at h
      · cases h
      · exact .inl h

/-- What is accepted on a connection was made for it, unless it was made for another and is said
again. -/
theorem pins_authentic_event (hun : Unforged n e opened) :
    (∀ conn id key, PinsVerified n e opened conn id key → MadeFor n.made conn id key) ↔
      ¬ Replays n (.event e opened) := by
  constructor
  · rintro h ⟨conn, parsed, key, haccepts, hkey, hnone, -⟩
    exact hnone (h conn _ key (pinsVerified_iff.2 ⟨parsed, haccepts, rfl, hkey⟩))
  · intro hno conn id key hpins
    obtain ⟨parsed, haccepts, rfl, hkey⟩ := pinsVerified_iff.1 hpins
    by_contra hnone
    have hverifies : verifyFedHelloSignature env.signatures parsed = .ok true := by
      rcases haccepts with ⟨_, _, _, -, -, -, hw⟩ | ⟨_, -, -, -, hconv, -⟩
      · exact hw.convinces.verifies
      · exact hconv.verifies
    obtain ⟨pk, sig, hpk, hsig, hver⟩ := verifyFedHelloSignature_true_iff.1 hverifies
    obtain rfl : pk = key := Option.some.inj (hpk.symm.trans hkey)
    obtain ⟨made, hmade, hmadeKey, hsigned⟩ := hun conn parsed pk sig haccepts.arrives hpk hsig hver
    refine hno ⟨conn, parsed, pk, haccepts, hkey, hnone, made, hmade, fun hconn => ?_, hmadeKey,
      hsigned⟩
    exact hnone ⟨made, hmade, hconn, hmadeKey, helloMessage_inj hsigned⟩

theorem NetworkStep.made_subset {x : Traffic} (h : NetworkStep n x n') :
    ∀ m ∈ n.made, m ∈ n'.made := by
  cases h with
  | made => exact fun m hm => List.mem_cons_of_mem _ hm
  | event _ _ _ _ _ _ hmade _ => exact fun m hm => hmade ▸ hm

theorem MadeFor.mono {made made' : List MadeHello} (h : MadeFor made conn id key)
    (hsub : ∀ m ∈ made, m ∈ made') : MadeFor made' conn id key := by
  obtain ⟨m, hm, hmade⟩ := h
  exact ⟨m, hsub m hm, hmade⟩

theorem NetworkStep.sane {x : Traffic} (h : NetworkStep n x n')
    (hs : ∀ p ∈ n.state.federation.peers, p.Sane (ownId n.state)) :
    ∀ p ∈ n'.state.federation.peers, p.Sane (ownId n'.state) := by
  cases h with
  | made => exact hs
  | event hstep _ _ _ _ _ _ _ =>
    have hd := step_does hstep
    rw [hd.federation_eq, hd.ownId_eq]
    exact Event.admitted.sane hs

theorem pinsAuthentic_iff {x : Traffic}
    (hs : ∀ p ∈ n.state.federation.peers, p.Sane (ownId n.state)) (hlive : LiveAuthentic n)
    (h : NetworkStep n x n') : PinsAuthentic n x n' ↔ ¬ Replays n x := by
  have hsub := h.made_subset
  cases h with
  | made =>
    refine iff_of_true ⟨fun e opened he => (by cases he), fun p conn hp id key hid hkey => ?_⟩ fun h => h
    exact (hlive p conn hp id key hid hkey).mono hsub
  | @event _ e opened hstep hlen _ _ hun hlines _ _ =>
    rw [← pins_authentic_event hun]
    constructor
    · exact fun hpins => hpins.1 e opened rfl
    · intro hpins
      refine ⟨fun e' opened' heq => ?_, fun p conn hp id key hid hkey => ?_⟩
      · cases heq
        exact hpins
      · rw [hlines] at hp
        rcases mem_linesAfter hs hlen hp hid hkey with hbefore | hpinned
        · exact (hlive p conn hbefore id key hid hkey).mono hsub
        · exact (hpins conn id key hpinned).mono hsub

/-- Over a run that starts without connections, a key is pinned only for a connection that its holder
has made a hello for, just if no hello is accepted on another connection than it was made for. -/
theorem pins_authentic_iff {xs : List Traffic} (hs : n.state.federation.peers = [])
    (_ : Path NetworkStep n xs n') :
    Path.Always NetworkStep PinsAuthentic n xs n' ↔
    Path.Always NetworkStep (fun m x _ => ¬ Replays m x) n xs n' := by
  have hlines : n.lines = [] := List.map_eq_nil_iff.1 (n.paired.trans hs)
  have hstart : LiveAuthentic n ∧ ∀ p ∈ n.state.federation.peers, p.Sane (ownId n.state) := by
    unfold LiveAuthentic
    rw [hlines, hs]
    exact ⟨nofun, nofun⟩
  refine Path.always_iff
    (I := fun m => LiveAuthentic m ∧ ∀ p ∈ m.state.federation.peers, p.Sane (ownId m.state))
    hstart (fun m x m' hstep hm => pinsAuthentic_iff hm.2 hm.1 hstep) fun m x m' hstep hm hpins => ?_
  exact ⟨hpins.2, hstep.sane hm.2⟩

end

/-! ### A hello that is said again -/

section

/-- One key has signed one hello. -/
def oneKeyEnv : Env := keyedEnv [(oldKey, helloMessage)]

/-- It was for the first connection. -/
def madeHello : MadeHello := ⟨1, oldKey, peerId, none, 1⟩

def unmet : Network oneKeyEnv := ⟨stateOf oneKeyEnv [], [], [], [], rfl⟩

theorem unforged_of_made {n : Network oneKeyEnv} {e : Event} {opened : List Nat}
    (h : madeHello ∈ n.made) : Unforged n e opened := by
  intro conn parsed pk sig _ _ _ hver
  have hsigned : [(oldKey, helloMessage)][(sig.bytes.headD 0).toNat]? =
      some (pk, signedMessage parsed) := of_decide_eq_true hver
  have hmem := List.mem_singleton.1 (List.mem_of_getElem? hsigned)
  obtain ⟨rfl, hmessage⟩ := Prod.mk.inj hmem
  exact ⟨madeHello, h, rfl, hmessage.symm⟩

/-- Somebody says the hello on the second connection. -/
theorem exists_replay : ∃ xs n', Path NetworkStep unmet xs n' ∧ n'.made = [madeHello] ∧
    ∃ p, (p, 2) ∈ n'.lines ∧ p.peerSubstrateId = some peerId ∧
      p.pinnedSignerPubkey = some oldKey := by
  have h : (listening.run.exec (stateOf oneKeyEnv [])).any (fun u =>
      ((greeting (helloUnder oldKey 0)).run.exec u.2).any fun t =>
        (newcomers (stateOf oneKeyEnv []) (.call listening u.1) = 0 : Bool) &&
        (newcomers u.2 (.call (greeting (helloUnder oldKey 0)) t.1) = 1 : Bool) &&
        (linesAfter u.2 (linesAfter (stateOf oneKeyEnv []) [] (.call listening u.1) [])
          (.call (greeting (helloUnder oldKey 0)) t.1) [2]).any fun l =>
            (l.2 = 2 : Bool) && (l.1.peerSubstrateId = some peerId : Bool) &&
              (l.1.pinnedSignerPubkey = some oldKey : Bool)) = true := by
    decide +kernel
  obtain ⟨⟨r, u⟩, hu, h⟩ := (Option.any_eq_true _ _).1 h
  obtain ⟨⟨r', t⟩, ht, h⟩ := (Option.any_eq_true _ _).1 h
  simp only [Bool.and_eq_true, decide_eq_true_eq, List.any_eq_true] at h
  obtain ⟨⟨hnone, hone⟩, ⟨p, c⟩, hl, ⟨rfl, hid⟩, hkey⟩ := h
  let n1 : Network oneKeyEnv := { unmet with made := [madeHello] }
  obtain ⟨n2, hstep2, rfl, hlines2, hmade2, hseen2⟩ := 
    @exists_networkStep _ n1 (.call listening r) u [] (.call hu) hnone.symm List.nodup_nil (by simp)
      (unforged_of_made List.mem_cons_self)
  have hin : madeHello ∈ n2.made := hmade2 ▸ List.mem_cons_self
  obtain ⟨n3, hstep3, -, hlines3, hmade3, -⟩ :=
    @exists_networkStep _ n2 (.call (greeting (helloUnder oldKey 0)) r') t [2] (.call ht) hone.symm
      (List.nodup_singleton 2) (by simp [hseen2, n1, unmet]) (unforged_of_made hin)
  refine ⟨_, n3, .cons .made (.cons hstep2 (.cons hstep3 .nil)), hmade3.trans hmade2, p, ?_, hid,
    hkey⟩
  rw [hlines3, hlines2]
  exact hl

/-- The key is pinned on the second connection, and its holder has said nothing there. -/
theorem replayed_hello_pins : ∃ xs n', unmet.state.federation.peers = [] ∧
    Path NetworkStep unmet xs n' ∧ ¬ LiveAuthentic n' := by
  obtain ⟨xs, n', hrun, hmade, p, hl, hid, hkey⟩ := exists_replay
  refine ⟨xs, n', rfl, hrun, fun hlive => ?_⟩
  obtain ⟨m, hm, hconn, -⟩ := hlive p 2 hl peerId oldKey hid hkey
  rw [hmade] at hm
  cases List.mem_singleton.1 hm
  cases hconn

theorem pins_authentic_replay : ∃ xs n', Path NetworkStep unmet xs n' ∧
    (Path.Always NetworkStep PinsAuthentic unmet xs n' ↔
      Path.Always NetworkStep (fun m x _ => ¬ Replays m x) unmet xs n') := by
  obtain ⟨xs, n', hrun, -⟩ := exists_replay
  exact ⟨xs, n', hrun, pins_authentic_iff rfl hrun⟩

end

end Myco.Consensus
