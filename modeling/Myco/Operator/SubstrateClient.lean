import Myco.Lib.Loop
import Myco.Operator.Wire

/-!
# The operator's client

`SubstrateClient` of `operators/claude/src/substrate_client.ts`, as far as requests and their
answers go: the waiters, which are kept by request id, the timer of each, and what a listener of
the child's streams does. A promise is known by the id of its request; what a call settles is
returned along with the client it leaves.
-/

namespace Myco.Operator

open Myco.Lib Myco.Canonical Myco.Bridge

/-- The errors a promise is rejected with. -/
inductive ClientError where
  /-- `request '{}' timed out after {}ms (no response frame)` -/
  | timedOut (messageType : Ts.Str) (elapsedMs : Nat)
  /-- `worker error: code={} message={}` -/
  | workerError (code text : Option Ts.Value)
  /-- `unsolicited worker error: code={} message={}` -/
  | unsolicitedWorkerError (code text : Option Ts.Value)
  /-- `received response for unknown request_id {}` -/
  | unknownRequestId (requestId : Int)
  /-- `child stdout closed unexpectedly` -/
  | stdoutClosed
  /-- `child exited with code {} while requests pending` -/
  | childExited (code : Option Int)
  /-- `child error: {}` -/
  | childError (text : Ts.Str)
  | wire (e : WireError)

/-- The promise of a request, resolved or rejected. -/
abbrev Settlement := Int × Except ClientError Message

structure SubstrateClient where
  nextRequestId : Int := 1
  reader : FrameReader := []
  /-- The waiters in the order of the `Map`, each with the message type that its timer reports. -/
  pendingResponses : List (Int × Ts.Str) := []
  fatalError : Option ClientError := none

/-- What a listener came upon, with the promises it settled. -/
inductive Happened where
  /-- A request was written to the child. -/
  | sent (requestId : Int)
  /-- A request threw. -/
  | refused (e : ClientError)
  /-- The timer of a request ran. -/
  | timedOut (requestId : Int) (settled : List Settlement)
  /-- A message was routed. -/
  | arrived (m : Message) (settled : List Settlement)
  /-- All waiters were failed. -/
  | failed (e : ClientError) (settled : List Settlement)

def Happened.settled : Happened → List Settlement
  | .sent _ | .refused _ => []
  | .timedOut _ ss | .arrived _ ss | .failed _ ss => ss

namespace SubstrateClient

def pendingIds (c : SubstrateClient) : List Int := c.pendingResponses.map Prod.fst

def registerWaiter (c : SubstrateClient) (requestId : Int) (messageType : Ts.Str) :
    SubstrateClient :=
  { c with pendingResponses := Ts.mapSet c.pendingResponses requestId messageType }

/-- `pendingResponses.delete(requestId)`. -/
def deleteWaiter (c : SubstrateClient) (requestId : Int) : SubstrateClient :=
  { c with pendingResponses := c.pendingResponses.filter (·.1 ≠ requestId) }

/-- The client without the waiter, if there was one. -/
def settleWaiter (c : SubstrateClient) (requestId : Int) : Option SubstrateClient :=
  if requestId ∈ c.pendingIds then some (c.deleteWaiter requestId) else none

def failAll (c : SubstrateClient) (e : ClientError) : List Settlement × SubstrateClient :=
  (c.pendingIds.map (·, .error e), { c with pendingResponses := [], fatalError := some e })

/-- What the timer does that `registerWaiter` has set. -/
def onTimer (c : SubstrateClient) (requestId : Int) (messageType : Ts.Str) (elapsedMs : Nat) :
    List Settlement × SubstrateClient :=
  if requestId ∈ c.pendingIds then
    ([(requestId, .error (.timedOut messageType elapsedMs))], c.deleteWaiter requestId)
  else ([], c)

end SubstrateClient

def Message.isError (m : Message) : Bool := m.messageType = Ts.units "error"

/-- The request that a message is an answer to. -/
def Message.target (m : Message) : Int :=
  if m.isError then
    match Ts.mapGet m.payload "in_response_to" with
    | some (.uint requestId) => requestId
    | _ => m.requestId
  else m.requestId

/-- What a message settles its own request with. -/
def Message.outcome (m : Message) : Except ClientError Message :=
  if m.isError then
    .error (.workerError (Ts.mapGet m.payload "code") (Ts.mapGet m.payload "message"))
  else .ok m

/-- What a message fails all waiters with, when its own is not there. -/
def Message.unsolicited (m : Message) : ClientError :=
  if m.isError then
    .unsolicitedWorkerError (Ts.mapGet m.payload "code") (Ts.mapGet m.payload "message")
  else .unknownRequestId m.requestId

namespace SubstrateClient

def routeIncoming (c : SubstrateClient) (m : Message) : List Settlement × SubstrateClient :=
  match c.settleWaiter m.target with
  | some c => ([(m.target, m.outcome)], c)
  | none => c.failAll m.unsolicited

/-- The bytes that go to the child. -/
def writeFrame (c : SubstrateClient) (frameBody : Bytes) : Except ClientError Bytes :=
  match c.fatalError with
  | some e => .error e
  | none => (encodeFrame frameBody).mapError .wire

/-- `spawn` sends the hello in the same way, with `BOOTSTRAP_KEY`. -/
def sendRequest (hmac : Hmac) (key : Hash32) (c : SubstrateClient) (messageType : Ts.Str)
    (payload : List (Ts.Str × Ts.Value)) :
    Except ClientError (Int × Bytes) × SubstrateClient :=
  match c.fatalError with
  | some e => (.error e, c)
  | none =>
    let requestId := c.nextRequestId
    let c := { c with nextRequestId := c.nextRequestId + 1 }
    match encodeFrameBody hmac key { messageType, requestId, payload } with
    | .error e => (.error (.wire e), c)
    | .ok frame =>
      let c := c.registerWaiter requestId messageType
      ((c.writeFrame frame).map (requestId, ·), c)

/-- The loop of the `data` listener, with the rounds it has left. -/
def drain (hmac : Hmac) (key : Hash32) :
    Nat → SubstrateClient → List Happened × SubstrateClient
  | 0, c => ([], c)
  | n + 1, c =>
    match tryReadFrame c.reader with
    | (.error e, reader) =>
      let (ss, c) := { c with reader }.failAll (.wire e)
      ([.failed (.wire e) ss], c)
    | (.ok none, reader) => ([], { c with reader })
    | (.ok (some frame), reader) =>
      match decodeFrameBody hmac key frame with
      | .error e =>
        let (ss, c) := { c with reader }.failAll (.wire e)
        ([.failed (.wire e) ss], c)
      | .ok m =>
        let (ss, c) := { c with reader }.routeIncoming m
        let (hs, c) := drain hmac key n c
        (.arrived m ss :: hs, c)

/-- Every round takes four bytes at least from the reader. -/
def onData (hmac : Hmac) (key : Hash32) (c : SubstrateClient) (chunk : Bytes) :
    List Happened × SubstrateClient :=
  drain hmac key (c.reader.push chunk).flatten.length { c with reader := c.reader.push chunk }

def onClose (c : SubstrateClient) : List Settlement × SubstrateClient := c.failAll .stdoutClosed

def onExit (c : SubstrateClient) (code : Option Int) : List Settlement × SubstrateClient :=
  if c.pendingIds.length > 0 then c.failAll (.childExited code) else ([], c)

def onError (c : SubstrateClient) (text : Ts.Str) : List Settlement × SubstrateClient :=
  c.failAll (.childError text)

/-! ### The waiters -/

variable {c : SubstrateClient} {k t : Int}

theorem mem_pendingIds_deleteWaiter :
    k ∈ (c.deleteWaiter t).pendingIds ↔ k ∈ c.pendingIds ∧ k ≠ t := by
  unfold deleteWaiter pendingIds
  simp only [List.mem_map, List.mem_filter, decide_eq_true_eq]
  refine ⟨?_, ?_⟩
  · rintro ⟨w, ⟨hw, hne⟩, rfl⟩
    exact ⟨⟨w, hw, rfl⟩, hne⟩
  · rintro ⟨⟨w, hw, rfl⟩, hne⟩
    exact ⟨w, ⟨hw, hne⟩, rfl⟩

theorem mem_pendingIds_registerWaiter {messageType : Ts.Str} :
    k ∈ (c.registerWaiter t messageType).pendingIds ↔ k ∈ c.pendingIds ∨ k = t := by
  unfold registerWaiter pendingIds Ts.mapSet
  dsimp only
  split
  · rename_i ht
    have hmap : (c.pendingResponses.map fun e => if e.1 = t then (t, messageType) else e).map
        Prod.fst = c.pendingResponses.map Prod.fst := by
      rw [List.map_map]
      refine List.map_congr_left fun e _ => ?_
      show (if e.1 = t then (t, messageType) else e).1 = e.1
      split
      · rename_i he
        exact he.symm
      · rfl
    rw [hmap]
    refine ⟨.inl, ?_⟩
    rintro (h | rfl)
    · exact h
    · exact List.contains_iff_mem.1 ht
  · rw [List.map_append, List.mem_append]
    simp only [List.map_cons, List.map_nil, List.mem_singleton]

theorem routeIncoming_pending {m : Message} (h : m.target ∈ c.pendingIds) :
    c.routeIncoming m = ([(m.target, m.outcome)], c.deleteWaiter m.target) := by
  unfold routeIncoming settleWaiter
  rw [if_pos h]

theorem routeIncoming_late {m : Message} (h : m.target ∉ c.pendingIds) :
    c.routeIncoming m = c.failAll m.unsolicited := by
  unfold routeIncoming settleWaiter
  rw [if_neg h]

theorem reader_routeIncoming {m : Message} : (c.routeIncoming m).2.reader = c.reader := by
  unfold routeIncoming settleWaiter
  split
  · rename_i d hd
    split at hd
    · cases hd
      rfl
    · cases hd
  · rfl

theorem onTimer_pending {messageType : Ts.Str} {elapsedMs : Nat} (h : k ∈ c.pendingIds) :
    c.onTimer k messageType elapsedMs =
      ([(k, .error (.timedOut messageType elapsedMs))], c.deleteWaiter k) := by
  unfold onTimer
  rw [if_pos h]

/-- What a request does: it throws for a client that has failed, or takes the next id; then the
message cannot be put into a frame body, or a waiter is registered and the frame is written or is
too large. -/
theorem sendRequest_cases (hmac : Hmac) (key : Hash32) (messageType : Ts.Str)
    (payload : List (Ts.Str × Ts.Value)) {r : Except ClientError (Int × Bytes)}
    {c' : SubstrateClient} (h : c.sendRequest hmac key messageType payload = (r, c')) :
    (∃ e, c.fatalError = some e ∧ r = .error e ∧ c' = c) ∨
    (∃ e, r = .error (.wire e) ∧ c' = { c with nextRequestId := c.nextRequestId + 1 }) ∨
    ((∃ e, r = .error e) ∨ ∃ wire, r = .ok (c.nextRequestId, wire)) ∧
      c' = { c with nextRequestId := c.nextRequestId + 1 }.registerWaiter c.nextRequestId
        messageType := by
  unfold sendRequest at h
  cases hf : c.fatalError with
  | some e =>
    rw [hf] at h
    cases h
    exact .inl ⟨e, rfl, rfl, rfl⟩
  | none =>
    rw [hf] at h
    dsimp only at h
    split at h
    · rename_i e _
      cases h
      exact .inr (.inl ⟨e, rfl, rfl⟩)
    · rename_i frame _
      injection h with hr hc
      refine .inr (.inr ⟨?_, ?_⟩)
      · rw [← hr]
        cases writeFrame _ frame with
        | error e => exact .inl ⟨e, rfl⟩
        | ok wire => exact .inr ⟨wire, rfl⟩
      · rw [← hc]

end SubstrateClient

end Myco.Operator
