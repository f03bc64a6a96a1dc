import Myco.Federation.BatchSize

/-!
# Requests and answers of two substrates

Two substrates over one connection, each of which pulls from the other (`pull_events_from_peer`) and
serves it (`progress_peers`) in any order. Requests and answers share the stream of a direction, and
a pull takes whichever frame comes next: what it takes is its own answer in every run in which a
pull starts only when everything before it is read (`run_pairsUp`).
-/

namespace Myco.Federation

open Myco.Lib Myco.Canonical Myco.Schema Myco.Substrate Myco.Bridge

/-! ### The code -/

/-- A frame that is not read yet, with the number of the pull that it asks for or answers. The
number is not on the wire. -/
structure InFlight where
  msg : Message
  pull : Nat

def InFlight.asks (f : InFlight) : Bool := f.msg.messageType = "fed_request_events_since"

/-- A `pull_events_from_peer` that has sent its request. -/
structure Pulling where
  pull : Nat
  peerSubstrateId : Hash32
  sinceNodeHash : Option Hash32
  maxEvents : UInt64

/-- An answer that was sent, and the log it was built from. -/
structure Answered where
  pull : Nat
  localDag : Dag
  message : Message

/-- One of the two substrates. The last four fields are its history. -/
structure Side where
  peer : PeerConnection
  localDag : Dag
  revokedPeers : List Hash32
  /-- what the other one has sent and it has not read -/
  inbox : List InFlight
  pulling : Option Pulling
  /-- its pulls, by number -/
  asked : List (Option Hash32 × UInt64)
  /-- the other's pulls whose requests it has read -/
  received : List Nat
  answered : List Answered
  /-- what its pulls have returned -/
  returned : List (Nat × Except SubstrateError ParsedEventBatch)

/-- What a substrate does next. A read finds the next frame, or times out before one has come. -/
inductive Act where
  | pull (peerSubstrateId : Hash32) (sinceNodeHash : Option Hash32) (maxEvents : UInt64)
  | read (inTime : Bool)
  | poll (inTime : Bool)
  /-- anything that changes its log or its revocations -/
  | other (localDag : Dag) (revokedPeers : List Hash32)

namespace Side

/-- The federation state of a substrate with this one peer. -/
def federation (s : Side) : FederationState := { FederationState.new false with peers := [s.peer] }

/-- The second half of `pull_events_from_peer`. -/
def finish (s : Side) (w : Pulling) (frame : Option InFlight) : Side :=
  { s with
    inbox := if frame.isSome then s.inbox.tail else s.inbox
    pulling := none
    received := s.received ++ (frame.toList.filter InFlight.asks).map InFlight.pull
    returned := s.returned ++ [(w.pull, s.federation.pullEventsFromPeer w.peerSubstrateId
      w.sinceNodeHash w.maxEvents
      ⟨.ok (), fun _ => .ok (), fun _ => .ok (frame.map InFlight.msg)⟩)] }

/-- The answer to a frame of the peer, unless the peer is revoked. -/
def answerFor (s : Side) (peerId : Hash32) (msg : Message) : Option Message :=
  if peerId ∈ s.revokedPeers then none else answerTo s.localDag msg

variable (blake3 : Bytes → NodeHash) (hmac : Hmac) (key : Hash32)

/-- What `write_fed_frame` comes to on a stream that takes every byte. -/
def frameWritten (m : Message) : Except String Unit :=
  match writeFrame (encodeFrameBody hmac key m) with
  | .ok _ => .ok ()
  | .error _ => .error s!"bridge frame too large: outgoing frame size {
      (encodeFrameBody hmac key m).length} exceeds cap {maxFrameBodySize}"

/-- The turn of the peer in `progress_peers`, with what is sent. -/
def serve (s o : Side) : Side × Side :=
  match s.peer.state, s.peer.peerSubstrateId, s.inbox with
  | .established, some peerId, fr :: rest =>
    let answer := s.answerFor peerId fr.msg
    let written := (answer.map (frameWritten hmac key)).getD (.ok ())
    let sent := if written.isOk then answer.toList else []
    let turn := progressEstablished blake3 s.localDag s.revokedPeers ⟨.ok (some fr.msg), written⟩
      s.peer
    ({ s with
        peer := turn.peer
        inbox := rest
        received := s.received ++ ([fr].filter InFlight.asks).map InFlight.pull
        answered := s.answered ++ sent.map fun m => ⟨fr.pull, s.localDag, m⟩ },
      { o with inbox := o.inbox ++ sent.map fun m => ⟨m, fr.pull⟩ })
  | _, _, _ => (s, o)

/-- What `s` does, with `o` at the other end. While it waits in a pull it does nothing else. -/
def act (s o : Side) : Act → Option (Side × Side)
  | .pull peerSubstrateId since maxEvents =>
    if s.pulling.isSome then none
    else if (s.federation.findEstablishedPeer peerSubstrateId).isNone then some (s, o)
    else some
      ({ s with
          pulling := some ⟨s.asked.length, peerSubstrateId, since, maxEvents⟩
          asked := s.asked ++ [(since, maxEvents)] },
        { o with inbox := o.inbox ++ [⟨pullRequest since maxEvents, s.asked.length⟩] })
  | .read inTime =>
    s.pulling.map fun w => (s.finish w (if inTime then s.inbox.head? else none), o)
  | .poll inTime =>
    if s.pulling.isSome then none
    else some (if inTime then s.serve blake3 hmac key o else (s, o))
  | .other localDag revokedPeers =>
    if s.pulling.isSome then none else some ({ s with localDag, revokedPeers }, o)

end Side

/-! ### What is claimed, and when -/

/-- What `o` sends for the pull with these arguments, when its log is `localDag`. -/
def batchFor (localDag : Dag) (call : Option Hash32 × UInt64) : Message :=
  eventBatchResponse localDag 1 ⟨call.1, min call.2 fedEventBatchMaxEvents⟩

/-- What a pull of `s` has returned is the batch that `o` built for it, and every request of `s`
that `o` has read is answered once. -/
structure PairsUp (s o : Side) : Prop where
  returned : ∀ k batch, (k, .ok batch) ∈ s.returned → ∃ a ∈ o.answered, a.pull = k ∧
    (∃ call, s.asked[k]? = some call ∧ a.message = batchFor a.localDag call) ∧
    parseEventBatchPayload a.message.payload = .ok batch
  answered : ∀ k ∈ o.received, (o.answered.filter fun a => a.pull = k).length = 1

/-- A pull starts when the stream toward it is read up and the peer has read its earlier requests; a
poll reads a request of a peer that is not revoked, and the nodes it asks for leave room in a
frame. -/
def Orderly (s o : Side) : Act → Prop
  | .pull _ _ _ => s.inbox = [] ∧ ∀ fr ∈ o.inbox, ¬ fr.asks
  | .poll true => ∀ fr rest peerId parsed, s.inbox = fr :: rest → fr.asks →
    s.peer.peerSubstrateId = some peerId →
    parseRequestEventsSincePayload fr.msg.payload = .ok parsed →
    peerId ∉ s.revokedPeers ∧ batchFrameSize (requestedNodes s.localDag parsed) ≤ maxFrameBodySize
  | _ => True

section

variable (blake3 : Bytes → NodeHash) (hmac : Hmac) (key : Hash32)

/-- One of the two does something that `ok` allows. -/
inductive ExchangeStep (ok : Side → Side → Act → Prop) : Side × Side → Side × Side → Prop
  | left {s o s' o' : Side} (a : Act) (h : s.act blake3 hmac key o a = some (s', o'))
      (hok : ok s o a) : ExchangeStep ok (s, o) (s', o')
  | right {s o s' o' : Side} (a : Act) (h : o.act blake3 hmac key s a = some (o', s'))
      (hok : ok o s a) : ExchangeStep ok (s, o) (s', o')

abbrev ExchangeRun (ok : Side → Side → Act → Prop) : Side × Side → Side × Side → Prop :=
  Relation.ReflTransGen (ExchangeStep blake3 hmac key ok)

/-- The two are connected, and have neither asked nor answered anything. -/
structure Side.Fresh (s : Side) : Prop where
  established : s.peer.state = .established
  inbox : s.inbox = []
  pulling : s.pulling = none
  asked : s.asked = []
  received : s.received = []
  answered : s.answered = []
  returned : s.returned = []

end

/-! ### Pulls in order -/

/-- The pulls of `s` of which a request or an answer is on its way. -/
def outstanding (s o : Side) : List Nat :=
  (o.inbox.filter InFlight.asks ++ s.inbox.filter fun fr => !fr.asks).map InFlight.pull

/-- The pulls of `s`, answered by `o`, so far. -/
structure Ordered (s o : Side) : Prop where
  requests : ∀ fr ∈ o.inbox, fr.asks → ∃ call, s.asked[fr.pull]? = some call ∧
    fr.msg = pullRequest call.1 call.2
  numbers : o.received ++ (o.inbox.filter InFlight.asks).map InFlight.pull =
    List.range s.asked.length
  answers : ∀ fr ∈ s.inbox, ¬ fr.asks → ∃ a ∈ o.answered, a.pull = fr.pull ∧ a.message = fr.msg
  built : ∀ a ∈ o.answered, ∃ call, s.asked[a.pull]? = some call ∧
    a.message = batchFor a.localDag call
  once : o.answered.map Answered.pull = o.received
  single : (outstanding s o).length ≤ 1
  waiting : ∀ w, s.pulling = some w → outstanding s o = [w.pull] ∧ ∀ fr ∈ s.inbox.head?, ¬ fr.asks
  returned : ∀ k batch, (k, .ok batch) ∈ s.returned → ∃ a ∈ o.answered, a.pull = k ∧
    parseEventBatchPayload a.message.payload = .ok batch

section

variable {blake3 : Bytes → NodeHash} {hmac : Hmac} {key : Hash32} {s o s' o' : Side}

theorem Ordered.pairsUp (h : Ordered s o) : PairsUp s o := by
  constructor
  · intro k batch hmem
    obtain ⟨a, ha, rfl, hparse⟩ := h.returned k batch hmem
    exact ⟨a, ha, rfl, h.built a ha, hparse⟩
  · intro k hk
    have hnodup : o.received.Nodup := by
      have : o.received.Sublist (List.range s.asked.length) := by
        rw [← h.numbers]
        exact List.sublist_append_left ..
      exact this.nodup List.nodup_range
    rw [← h.once] at hnodup hk
    rw [← List.countP_eq_length_filter]
    have hcount := List.count_eq_one_of_mem hnodup hk
    rw [List.count, List.countP_map] at hcount
    rw [← hcount]
    refine List.countP_congr fun a _ => ?_
    simp

theorem Side.Fresh.ordered (hs : s.Fresh) (ho : o.Fresh) : Ordered s o where
  requests := by simp [ho.inbox]
  numbers := by simp [ho.received, ho.inbox, hs.asked]
  answers := by simp [hs.inbox]
  built := by simp [ho.answered]
  once := by simp [ho.answered, ho.received]
  single := by simp [outstanding, hs.inbox, ho.inbox]
  waiting := by simp [hs.pulling]
  returned := by simp [hs.returned]

theorem filter_asks_eq_nil {l : List InFlight} (h : ∀ fr ∈ l, ¬ fr.asks) :
    l.filter InFlight.asks = [] := List.filter_eq_nil_iff.2 h

/-! ### A pull starts -/

section

variable {w : Pulling} {call : Option Hash32 × UInt64}

theorem getElem?_asked {k : Nat} {call' : Option Hash32 × UInt64} (h : s.asked[k]? = some call') :
    (s.asked ++ [call])[k]? = some call' := by
  rw [List.getElem?_append_left (List.getElem?_eq_some_iff.1 h).1]
  exact h

theorem Ordered.pull (h : Ordered s o) (hin : s.inbox = []) (hread : ∀ fr ∈ o.inbox, ¬ fr.asks)
    (hw : w.pull = s.asked.length) :
    Ordered { s with pulling := some w, asked := s.asked ++ [call] }
      { o with inbox := o.inbox ++ [⟨pullRequest call.1 call.2, s.asked.length⟩] } := by
  have hasks : (⟨pullRequest call.1 call.2, s.asked.length⟩ : InFlight).asks = true := rfl
  have hout : outstanding { s with pulling := some w, asked := s.asked ++ [call] }
      { o with inbox := o.inbox ++ [⟨pullRequest call.1 call.2, s.asked.length⟩] } =
        [s.asked.length] := by
    simp [outstanding, hin, filter_asks_eq_nil hread, hasks]
  constructor
  · intro fr hfr hask
    rcases List.mem_append.1 hfr with hfr | hfr
    · exact absurd hask (hread fr hfr)
    · rw [List.mem_singleton.1 hfr]
      exact ⟨call, by simp, rfl⟩
  · have := h.numbers
    rw [filter_asks_eq_nil hread, List.map_nil, List.append_nil] at this
    simp [filter_asks_eq_nil hread, hasks, this, List.range_succ]
  · intro fr hfr
    rw [show s.inbox = [] from hin] at hfr
    cases hfr
  · intro a ha
    obtain ⟨call', hcall, hmsg⟩ := h.built a ha
    exact ⟨call', getElem?_asked hcall, hmsg⟩
  · exact h.once
  · rw [hout]
    exact Nat.le_refl 1
  · intro w' hw'
    cases hw'
    refine ⟨hout.trans (by rw [hw]), fun fr hfr => ?_⟩
    simp [hin] at hfr
  · exact h.returned

/-- The one that is asked. -/
theorem Ordered.pulled (h : Ordered o s) (hin : s.inbox = []) :
    Ordered { o with inbox := o.inbox ++ [⟨pullRequest call.1 call.2, s.asked.length⟩] }
      { s with pulling := some w, asked := s.asked ++ [call] } := by
  have hasks : (⟨pullRequest call.1 call.2, s.asked.length⟩ : InFlight).asks = true := rfl
  have hout : outstanding { o with
        inbox := o.inbox ++ [⟨pullRequest call.1 call.2, s.asked.length⟩] }
      { s with pulling := some w, asked := s.asked ++ [call] } = outstanding o s := by
    simp [outstanding, hasks]
  constructor
  · exact h.requests
  · exact h.numbers
  · intro fr hfr hask
    rcases List.mem_append.1 hfr with hfr | hfr
    · exact h.answers fr hfr hask
    · rw [List.mem_singleton.1 hfr] at hask
      exact absurd hasks hask
  · exact h.built
  · exact h.once
  · rw [hout]
    exact h.single
  · intro w' hw'
    obtain ⟨hout', hhead⟩ := h.waiting w' hw'
    refine ⟨hout.trans hout', fun fr hfr => ?_⟩
    cases hinbox : o.inbox with
    | nil =>
      rw [outstanding, hin, hinbox] at hout'
      cases hout'
    | cons fr' rest =>
      rw [hinbox] at hfr hhead
      exact hhead fr hfr
  · exact h.returned

end

/-! ### A pull ends -/

section

variable {w : Pulling} {frame : Option InFlight}

theorem Ordered.finish (h : Ordered s o) (hw : s.pulling = some w)
    (hframe : frame = none ∨ frame = s.inbox.head?) : Ordered (s.finish w frame) o := by
  obtain ⟨hout, hhead⟩ := h.waiting w hw
  have hsub : (s.finish w frame).inbox.Sublist s.inbox := by
    rw [Side.finish]
    dsimp only
    split
    · exact List.tail_sublist _
    · exact .refl _
  constructor
  · exact h.requests
  · exact h.numbers
  · exact fun fr hfr hask => h.answers fr (hsub.subset hfr) hask
  · exact h.built
  · exact h.once
  · refine le_trans (List.Sublist.length_le ?_) h.single
    exact ((List.Sublist.refl _).append (hsub.filter _)).map _
  · intro w' hw'
    cases hw'
  · intro k batch hmem
    rcases List.mem_append.1 hmem with hmem | hmem
    · exact h.returned k batch hmem
    obtain ⟨rfl, hb⟩ := Prod.mk.inj (List.mem_singleton.1 hmem)
    obtain ⟨resp, hread, -, hparse⟩ := FederationState.pullEventsFromPeer_ok hb.symm
    obtain ⟨fr, hfr, rfl⟩ := Option.map_eq_some_iff.1 (Except.ok.inj hread)
    rcases hframe with hnone | hsome
    · rw [hnone] at hfr
      cases hfr
    rw [hsome] at hfr
    have hask := hhead fr hfr
    have hmemfr : fr ∈ s.inbox := List.mem_of_mem_head? hfr
    obtain ⟨a, ha, hpull, hmsg⟩ := h.answers fr hmemfr hask
    refine ⟨a, ha, ?_, by rw [hmsg]; exact hparse⟩
    have hk : fr.pull ∈ outstanding s o := by
      rw [outstanding]
      exact List.mem_map_of_mem
        (List.mem_append_right _ (List.mem_filter.2 ⟨hmemfr, by simpa using hask⟩))
    rw [hout] at hk
    rw [hpull, List.mem_singleton.1 hk]

/-- The one that has answered. -/
theorem Ordered.finished (h : Ordered o s) (hs : Ordered s o) (hw : s.pulling = some w)
    (hframe : frame = none ∨ frame = s.inbox.head?) : Ordered o (s.finish w frame) := by
  obtain ⟨-, hhead⟩ := hs.waiting w hw
  have hsub : (s.finish w frame).inbox ⊆ s.inbox := by
    rw [Side.finish]
    dsimp only
    split
    · exact List.tail_subset _
    · exact List.Subset.refl _
  -- the frame that is taken, if any, is an answer
  have htaken : frame = none ∨ ∃ fr rest, frame = some fr ∧ s.inbox = fr :: rest ∧
      fr.asks = false := by
    rcases hframe with hnone | hsome
    · exact .inl hnone
    cases hin : s.inbox with
    | nil => exact .inl (by rw [hsome, hin]; rfl)
    | cons fr rest =>
      rw [hin] at hsome hhead
      exact .inr ⟨fr, rest, hsome, rfl, by simpa using hhead fr rfl⟩
  have hrec : (s.finish w frame).received = s.received := by
    rcases htaken with rfl | ⟨fr, rest, rfl, hin, hask⟩
    · simp [Side.finish]
    · simp [Side.finish, hask]
  have hasks : (s.finish w frame).inbox.filter InFlight.asks = s.inbox.filter InFlight.asks := by
    rcases htaken with rfl | ⟨fr, rest, rfl, hin, hask⟩
    · simp [Side.finish]
    · simp [Side.finish, hin, hask]
  have hout : outstanding o (s.finish w frame) = outstanding o s := by
    rw [outstanding, outstanding, hasks]
  constructor
  · exact fun fr hfr => h.requests fr (hsub hfr)
  · rw [hrec, hasks]
    exact h.numbers
  · exact h.answers
  · exact h.built
  · rw [hrec]
    exact h.once
  · rw [hout]
    exact h.single
  · rw [hout]
    exact h.waiting
  · exact h.returned

end

/-! ### A poll -/

section

variable {fr : InFlight} {rest : List InFlight} {peerId : Hash32}

/-- A frame that asks for nothing is passed over. -/
theorem serve_passes (hstate : s.peer.state = .established)
    (hid : s.peer.peerSubstrateId = some peerId) (hin : s.inbox = fr :: rest) (hask : ¬ fr.asks) :
    s.serve blake3 hmac key o = ({ s with inbox := rest }, o) := by
  have hanswer : s.answerFor peerId fr.msg = none := by
    rw [Side.answerFor, answerTo]
    split
    · rfl
    · rw [if_pos (by simpa [InFlight.asks] using hask)]
  have hturn : progressEstablished blake3 s.localDag s.revokedPeers ⟨.ok (some fr.msg), .ok ()⟩
      s.peer = .unchanged s.peer := by
    rw [progressEstablished, hstate, hid]
    dsimp only
    rw [if_pos (by simpa [InFlight.asks] using hask)]
  rw [Side.serve, hstate, hid, hin]
  simp [hanswer, hturn, hask, Turn.unchanged]

/-- A request of a peer that is not revoked is answered with what fits in a frame. -/
theorem serve_answers {call : Option Hash32 × UInt64} (hstate : s.peer.state = .established)
    (hid : s.peer.peerSubstrateId = some peerId) (hin : s.inbox = fr :: rest)
    (hmsg : fr.msg = pullRequest call.1 call.2) (hrev : peerId ∉ s.revokedPeers)
    (hfits : batchFrameSize (requestedNodes s.localDag
      ⟨call.1, min call.2 fedEventBatchMaxEvents⟩) ≤ maxFrameBodySize) :
    s.serve blake3 hmac key o =
      ({ s with
          inbox := rest
          received := s.received ++ [fr.pull]
          answered := s.answered ++ [⟨fr.pull, s.localDag, batchFor s.localDag call⟩] },
        { o with inbox := o.inbox ++ [⟨batchFor s.localDag call, fr.pull⟩] }) := by
  have hanswer : s.answerFor peerId fr.msg = some (batchFor s.localDag call) := by
    rw [Side.answerFor, if_neg hrev, answerTo, hmsg, if_neg (by simp [pullRequest])]
    rw [pullRequest, parseRequestEventsSincePayload_build]
    rfl
  have hwritten : Side.frameWritten hmac key (batchFor s.localDag call) = .ok () := by
    rw [Side.frameWritten, writeFrame, batchFor, batchFrame_length, if_neg (by omega)]
  have hask : fr.asks = true := by
    rw [InFlight.asks, hmsg]
    rfl
  obtain ⟨events, -, -, hturn⟩ := @progressEstablished_answers blake3 s.localDag s.revokedPeers
    ⟨.ok (some fr.msg), .ok ()⟩ s.peer peerId fr.msg (batchFor s.localDag call) hstate hid hrev rfl
    rfl
    (by rw [Side.answerFor, if_neg hrev] at hanswer; exact hanswer)
  rw [Side.serve, hstate, hid, hin]
  simp [hanswer, hwritten, hturn, hask, Except.isOk, Except.toBool]

/-- A frame fewer for `s` to read, and answers more for `o`, are the same to the pulls of `s`. -/
theorem Ordered.serves (h : Ordered s o) {received : List Nat} {answered : List Answered}
    {sent : List InFlight} (hpulling : s.pulling = none) (hin : s.inbox = fr :: rest)
    (hsent : ∀ a ∈ sent, ¬ a.asks) :
    Ordered { s with inbox := rest, received, answered } { o with inbox := o.inbox ++ sent } := by
  have hasks : (o.inbox ++ sent).filter InFlight.asks = o.inbox.filter InFlight.asks := by
    rw [List.filter_append, filter_asks_eq_nil hsent, List.append_nil]
  have hsub : rest.Sublist s.inbox := hin ▸ List.sublist_cons_self ..
  constructor
  · intro a ha hask
    rcases List.mem_append.1 ha with ha | ha
    · exact h.requests a ha hask
    · exact absurd hask (hsent a ha)
  · rw [hasks]
    exact h.numbers
  · exact fun a ha hask => h.answers a (hsub.subset ha) hask
  · exact h.built
  · exact h.once
  · refine le_trans (List.Sublist.length_le ?_) h.single
    rw [outstanding, hasks]
    exact ((List.Sublist.refl _).append (hsub.filter _)).map _
  · intro w hw
    rw [show s.pulling = some w from hw] at hpulling
    cases hpulling
  · exact h.returned

/-- The peer of one that has passed over a frame. -/
theorem Ordered.passed (h : Ordered o s) (hin : s.inbox = fr :: rest) (hask : ¬ fr.asks) :
    Ordered o { s with inbox := rest } := by
  have hasks : rest.filter InFlight.asks = s.inbox.filter InFlight.asks := by
    rw [hin, List.filter_cons_of_neg hask]
  have hout : outstanding o { s with inbox := rest } = outstanding o s := by
    rw [outstanding, outstanding, hasks]
  constructor
  · exact fun a ha => h.requests a (hin ▸ List.mem_cons_of_mem _ ha)
  · rw [hasks]
    exact h.numbers
  · exact h.answers
  · exact h.built
  · exact h.once
  · rw [hout]
    exact h.single
  · rw [hout]
    exact h.waiting
  · exact h.returned

/-- The one that is answered. -/
theorem Ordered.answered (h : Ordered o s) {call : Option Hash32 × UInt64}
    (hin : s.inbox = fr :: rest) (hask : fr.asks) (hcall : o.asked[fr.pull]? = some call) :
    Ordered { o with inbox := o.inbox ++ [⟨batchFor s.localDag call, fr.pull⟩] }
      { s with
        inbox := rest
        received := s.received ++ [fr.pull]
        answered := s.answered ++ [⟨fr.pull, s.localDag, batchFor s.localDag call⟩] } := by
  have hnot : (⟨batchFor s.localDag call, fr.pull⟩ : InFlight).asks = false := rfl
  have hold : outstanding o s = fr.pull :: (rest.filter InFlight.asks ++
      o.inbox.filter fun a => !a.asks).map InFlight.pull := by
    rw [outstanding, hin, List.filter_cons_of_pos hask]
    rfl
  -- the request was all that was outstanding
  have hnone : rest.filter InFlight.asks ++ o.inbox.filter (fun a => !a.asks) = [] := by
    have hsingle := h.single
    rw [hold, List.length_cons, List.length_map] at hsingle
    exact List.eq_nil_of_length_eq_zero (by omega)
  obtain ⟨hrest, hinbox⟩ := List.append_eq_nil_iff.1 hnone
  rw [hnone, List.map_nil] at hold
  have hout : outstanding { o with inbox := o.inbox ++ [⟨batchFor s.localDag call, fr.pull⟩] }
      { s with
        inbox := rest
        received := s.received ++ [fr.pull]
        answered := s.answered ++ [⟨fr.pull, s.localDag, batchFor s.localDag call⟩] } =
      outstanding o s := by
    rw [hold]
    simp [outstanding, hrest, hinbox, hnot]
  constructor
  · exact fun a ha => h.requests a (hin ▸ List.mem_cons_of_mem _ ha)
  · have := h.numbers
    rw [hin, List.filter_cons_of_pos hask, hrest] at this
    dsimp only
    rw [hrest, List.map_nil, List.append_nil, ← this]
    rfl
  · intro a ha ha'
    rcases List.mem_append.1 ha with ha | ha
    · obtain ⟨b, hb, hpull, hmsg⟩ := h.answers a ha ha'
      exact ⟨b, List.mem_append_left _ hb, hpull, hmsg⟩
    · rw [List.mem_singleton.1 ha]
      exact ⟨_, List.mem_append_right _ List.mem_cons_self, rfl, rfl⟩
  · intro a ha
    rcases List.mem_append.1 ha with ha | ha
    · exact h.built a ha
    · rw [List.mem_singleton.1 ha]
      exact ⟨call, hcall, rfl⟩
  · rw [List.map_append, h.once]
    rfl
  · rw [hout]
    exact h.single
  · intro w hw
    obtain ⟨hout', hhead⟩ := h.waiting w hw
    refine ⟨hout.trans hout', fun a ha => ?_⟩
    cases hinbox' : o.inbox with
    | nil =>
      rw [hinbox'] at ha
      cases ha
      exact Bool.false_ne_true
    | cons a' as =>
      rw [hinbox'] at ha hhead
      exact hhead a ha
  · intro k batch hmem
    obtain ⟨a, ha, hpull, hparse⟩ := h.returned k batch hmem
    exact ⟨a, List.mem_append_left _ ha, hpull, hparse⟩

/-! ### Runs -/

theorem serve_ordered (hs : Ordered s o) (ho : Ordered o s) (hpulling : s.pulling = none)
    (hord : Orderly s o (.poll true)) (h : s.serve blake3 hmac key o = (s', o')) :
    Ordered s' o' ∧ Ordered o' s' := by
  by_cases hread : ∃ fr rest peerId, s.peer.state = .established ∧
      s.peer.peerSubstrateId = some peerId ∧ s.inbox = fr :: rest
  · obtain ⟨fr, rest, peerId, hstate, hid, hin⟩ := hread
    by_cases hask : fr.asks
    · obtain ⟨call, hcall, hmsg⟩ := ho.requests fr (hin ▸ List.mem_cons_self) hask
      have hparsed : parseRequestEventsSincePayload fr.msg.payload =
          .ok ⟨call.1, min call.2 fedEventBatchMaxEvents⟩ := by
        rw [hmsg, pullRequest, parseRequestEventsSincePayload_build]
      obtain ⟨hrev, hfits⟩ := hord fr rest peerId _ hin hask hid hparsed
      rw [serve_answers hstate hid hin hmsg hrev hfits] at h
      cases h
      refine ⟨hs.serves hpulling hin fun a ha => ?_, ho.answered hin hask hcall⟩
      rw [List.mem_singleton.1 ha]
      exact Bool.false_ne_true
    · rw [serve_passes hstate hid hin hask] at h
      cases h
      have hserves := @Ordered.serves s o fr rest hs s.received s.answered [] hpulling hin (by simp)
      rw [List.append_nil] at hserves
      exact ⟨hserves, ho.passed hin hask⟩
  · have hidle : s.serve blake3 hmac key o = (s, o) := by
      rw [Side.serve]
      split
      · rename_i peerId fr rest hstate hid hin
        exact absurd ⟨fr, rest, peerId, hstate, hid, hin⟩ hread
      · rfl
    rw [hidle] at h
    cases h
    exact ⟨hs, ho⟩

theorem act_ordered {a : Act} (hs : Ordered s o) (ho : Ordered o s) (hord : Orderly s o a)
    (h : s.act blake3 hmac key o a = some (s', o')) : Ordered s' o' ∧ Ordered o' s' := by
  cases a with
  | pull peerSubstrateId since maxEvents =>
    rw [Side.act] at h
    split at h
    · cases h
    split at h
    · cases h
      exact ⟨hs, ho⟩
    · cases h
      exact ⟨hs.pull hord.1 hord.2 rfl, @Ordered.pulled s o _ (since, maxEvents) ho hord.1⟩
  | read inTime =>
    obtain ⟨w, hw, heq⟩ := Option.map_eq_some_iff.1 h
    cases heq
    have hframe : (if inTime then s.inbox.head? else none) = none ∨
        (if inTime then s.inbox.head? else none) = s.inbox.head? := by
      cases inTime <;> simp
    exact ⟨hs.finish hw hframe, ho.finished hs hw hframe⟩
  | poll inTime =>
    rw [Side.act] at h
    split at h
    · cases h
    rename_i hpulling
    cases inTime with
    | false =>
      cases h
      exact ⟨hs, ho⟩
    | true => exact serve_ordered hs ho (by simpa using hpulling) hord (Option.some.inj h)
  | other localDag revokedPeers =>
    rw [Side.act] at h
    split at h
    · cases h
    · cases h
      exact ⟨⟨hs.1, hs.2, hs.3, hs.4, hs.5, hs.6, hs.7, hs.8⟩,
        ⟨ho.1, ho.2, ho.3, ho.4, ho.5, ho.6, ho.7, ho.8⟩⟩

theorem run_ordered {t : Side × Side} (hs : s.Fresh) (ho : o.Fresh)
    (h : ExchangeRun blake3 hmac key Orderly (s, o) t) : Ordered t.1 t.2 ∧ Ordered t.2 t.1 := by
  induction h with
  | refl => exact ⟨hs.ordered ho, ho.ordered hs⟩
  | tail _ hstep ih =>
    cases hstep with
    | left a hact hord => exact act_ordered ih.1 ih.2 hord hact
    | right a hact hord => exact (act_ordered ih.2 ih.1 hord hact).symm

/-- In a run in which each pull starts only when everything before it is read, and each request that
is read can be answered, pulls and answers pair up. -/
theorem run_pairsUp (hs : s.Fresh) (ho : o.Fresh)
    (h : ExchangeRun blake3 hmac key Orderly (s, o) (s', o')) : PairsUp s' o' ∧ PairsUp o' s' := by
  obtain ⟨h1, h2⟩ := run_ordered hs ho h
  exact ⟨h1.pairsUp, h2.pairsUp⟩

/-- A pull that starts while a frame is left to be read takes that frame, and it is not its own. -/
theorem pull_misreads {id : Hash32} {since : Option Hash32} {maxEvents : UInt64} {s₂ o₂ : Side}
    (hs : Ordered s o) (ho : Ordered o s) (hin : s.inbox = fr :: rest)
    (hest : (s.federation.findEstablishedPeer id).isSome)
    (hpull : s.act blake3 hmac key o (.pull id since maxEvents) = some (s', o'))
    (hread : s'.act blake3 hmac key o' (.read true) = some (s₂, o₂)) :
    (fr.asks → ¬ PairsUp o₂ s₂) ∧
      (¬ fr.asks → (∃ batch, parseEventBatchPayload fr.msg.payload = .ok batch) →
        ¬ PairsUp s₂ o₂) := by
  rw [Side.act] at hpull
  split at hpull
  · cases hpull
  rw [if_neg (by simpa [Option.isNone_iff_eq_none, Option.isSome_iff_ne_none] using hest)] at hpull
  cases hpull
  rw [Side.act] at hread
  simp only [if_true, hin, List.head?_cons, Option.map_some] at hread
  cases hread
  constructor
  · intro hask hpairs
    have hnew : fr.pull ∉ s.received := by
      have hnodup : (List.range o.asked.length).Nodup := List.nodup_range
      rw [← ho.numbers, hin, List.filter_cons_of_pos hask, List.map_cons,
        List.nodup_append] at hnodup
      exact fun hmem => hnodup.2.2 _ hmem _ List.mem_cons_self rfl
    have hcount := hpairs.answered fr.pull (by simp [Side.finish, hask])
    rw [List.filter_eq_nil_iff.2] at hcount
    · cases hcount
    · intro a ha
      rw [decide_eq_true_eq]
      rintro hpull
      rw [← hpull, ← ho.once] at hnew
      exact hnew (List.mem_map_of_mem ha)
  · rintro hask ⟨batch, hparse⟩ hpairs
    obtain ⟨a, ha, hpull, hmsg⟩ := hs.answers fr (hin ▸ List.mem_cons_self) hask
    obtain ⟨call, -, hbuilt⟩ := hs.built a ha
    have htype : fr.msg.messageType = "fed_event_batch" := by
      rw [← hmsg, hbuilt]
      rfl
    obtain ⟨b, hb, hnum, -⟩ := hpairs.returned s.asked.length batch
      (List.mem_append_right _ (List.mem_singleton.2 (Prod.ext rfl
        (FederationState.pullEventsFromPeer_of_read hest rfl (fun _ => rfl) rfl htype hparse).symm)))
    obtain ⟨call', hcall, -⟩ := hs.built b hb
    rw [hnum, List.getElem?_eq_none (Nat.le_refl _)] at hcall
    cases hcall

end

end

/-! ### Two substrates -/

section

/-- What the two do in turn, `true` for the left one. -/
def runActs (p : Side × Side) : List (Bool × Act) → Option (Side × Side)
  | [] => some p
  | (true, a) :: acts => (p.1.act foldHash noHmac (.replicate 0) p.2 a).bind (runActs · acts)
  | (false, a) :: acts =>
    (p.2.act foldHash noHmac (.replicate 0) p.1 a).bind fun q => runActs q.swap acts

abbrev Anything (_ _ : Side) (_ : Act) : Prop := True

theorem run_of_runActs {p q : Side × Side} {acts : List (Bool × Act)}
    (h : runActs p acts = some q) : ExchangeRun foldHash noHmac (.replicate 0) Anything p q := by
  induction acts generalizing p with
  | nil =>
    cases h
    exact .refl
  | cons act acts ih =>
    obtain ⟨l, r⟩ := p
    obtain ⟨left, a⟩ := act
    cases left with
    | true =>
      obtain ⟨⟨l', r'⟩, hact, hrest⟩ := Option.bind_eq_some_iff.1 h
      exact .head (.left a hact trivial) (ih hrest)
    | false =>
      obtain ⟨⟨r', l'⟩, hact, hrest⟩ := Option.bind_eq_some_iff.1 h
      exact .head (.right a hact trivial) (ih hrest)

def connected (localDag : Dag) : Side where
  peer := ⟨.established, some (.replicate 7), none, "127.0.0.1:9000", 0⟩
  localDag := localDag
  revokedPeers := []
  inbox := []
  pulling := none
  asked := []
  received := []
  answered := []
  returned := []

theorem connected_fresh {localDag : Dag} : (connected localDag).Fresh :=
  ⟨rfl, rfl, rfl, rfl, rfl, rfl, rfl⟩

theorem orderly_request {since : Option Hash32} {maxEvents : UInt64} {k : Nat} {s o : Side}
    (hin : s.inbox = [⟨pullRequest since maxEvents, k⟩]) (hrev : s.revokedPeers = [])
    (hfits : batchFrameSize (requestedNodes s.localDag ⟨since, min maxEvents fedEventBatchMaxEvents⟩) ≤
      maxFrameBodySize) : Orderly s o (.poll true) := by
  intro fr rest peerId parsed hin' _ _ hparsed
  rw [hin] at hin'
  obtain ⟨rfl, rfl⟩ := List.cons.inj hin'
  rw [pullRequest, parseRequestEventsSincePayload_build] at hparsed
  cases hparsed
  exact ⟨by simp [hrev], hfits⟩

/-- After its request is sent. -/
def asking : Side :=
  { connected (.ofNodes []) with pulling := some ⟨0, .replicate 7, none, 10⟩, asked := [(none, 10)] }

def requested : Side :=
  { connected twoNodes.dag with inbox := [⟨pullRequest none 10, 0⟩] }

/-- A request, its answer, and the pull that returns it. -/
theorem pull_answered : ∃ s o, ExchangeRun foldHash noHmac (.replicate 0) Orderly
    (connected (.ofNodes []), connected twoNodes.dag) (s, o) ∧ s.returned.length = 1 ∧
    PairsUp s o ∧ PairsUp o s := by
  have hfits : batchFrameSize (requestedNodes requested.localDag
      ⟨none, min 10 fedEventBatchMaxEvents⟩) ≤ maxFrameBodySize := by decide
  have hpull : (connected (.ofNodes [])).act foldHash noHmac (.replicate 0) (connected twoNodes.dag)
      (.pull (.replicate 7) none 10) = some (asking, requested) := rfl
  have hserve := @serve_answers foldHash noHmac (.replicate 0) requested asking
    ⟨pullRequest none 10, 0⟩ [] (.replicate 7) (none, 10) rfl rfl rfl rfl List.not_mem_nil hfits
  have hpoll : requested.act foldHash noHmac (.replicate 0) asking (.poll true) = _ :=
    congrArg some hserve
  have hrun := Relation.ReflTransGen.refl
    |>.tail (ExchangeStep.left _ hpull ⟨rfl, nofun⟩)
    |>.tail (ExchangeStep.right _ hpoll (orderly_request rfl rfl hfits))
    |>.tail (ExchangeStep.left (.read true) rfl trivial)
  exact ⟨_, _, hrun, rfl, run_pairsUp connected_fresh connected_fresh hrun⟩

/-- The answer to a pull that has timed out is taken by the next one, which asked for something
else. -/
theorem late_answer_returned : ∃ s o, ExchangeRun foldHash noHmac (.replicate 0) Anything
    (connected (.ofNodes []), connected twoNodes.dag) (s, o) ∧ ¬ PairsUp s o := by
  have hrun : (runActs (connected (.ofNodes []), connected twoNodes.dag)
      [(true, .pull (.replicate 7) none 1), (true, .read false), (false, .poll true),
        (true, .pull (.replicate 7) none 2), (true, .read true)]).any (fun p =>
          p.1.returned.any (fun r => r.1 = 1 ∧ r.2.isOk) ∧ p.2.answered.all fun a => a.pull ≠ 1) =
        true := by decide +kernel
  obtain ⟨⟨s, o⟩, heq, hend⟩ := (Option.any_eq_true _ _).1 hrun
  refine ⟨s, o, run_of_runActs heq, fun hpairs => ?_⟩
  obtain ⟨hret, hans⟩ := of_decide_eq_true hend
  obtain ⟨⟨k, r⟩, hmem, hr⟩ := List.any_eq_true.1 hret
  obtain ⟨rfl, hok⟩ := of_decide_eq_true hr
  cases r with
  | error e => cases hok
  | ok batch =>
    obtain ⟨a, ha, hpull, -⟩ := hpairs.returned 1 batch hmem
    exact absurd hpull (of_decide_eq_true (List.all_eq_true.1 hans a ha))

end

end Myco.Federation
