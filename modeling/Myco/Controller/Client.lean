import Myco.Bridge.Timing

/-!
# The controller's client

`BridgeClient` of `kernel/bridge/rust/src/client.rs`: how a request is written to the worker, what
the reader thread makes of the worker's output, and what a call returns for the response that it
takes from the channel. A message that is decoded has the version of the protocol, so that the
second check of it finds nothing. `f64::from_str` is a parameter.
-/

namespace Myco.Controller

open Myco.Lib Myco.Canonical Myco.Substrate Myco.Bridge

/-! ### Errors -/

/-- The texts of `BridgeError::Protocol` for a response that is not what was asked for. -/
inductive ResponseError where
  /-- `expected {}; got {}` -/
  | messageType (expected got : String)
  /-- the text of the helper's error -/
  | field (e : CanonicalBytesError)
  /-- `fruited_axes contains non-String: {other:?}` -/
  | fruitedAxis (other : Value)
  /-- `fruiting_value_repr parse: {e}` -/
  | fruitingValue (repr : String)
  /-- `sporocarp.hash size {} != 32` -/
  | hashSize (size : Nat)
  /-- `sporocarps contains non-Map: {other:?}` -/
  | sporocarp (other : Value)

inductive CallError where
  | bridge (e : BridgeError)
  /-- `worker error envelope: code={code} message={msg}` -/
  | workerError (code msg : String)
  | correlationMismatch (expected got : UInt64)
  | timeout
  | desynchronized
  /-- `python worker reader thread disconnected (child exited)` -/
  | disconnected
  | response (e : ResponseError)

/-! ### Reports of a cycle -/

structure SporocarpReport (F : Type) where
  sporocarpType : String
  axisName : String
  fruitingValue : F
  atCycle : UInt64
  canonicalBytes : Bytes
  hash : Hash32

structure AdvanceReport (F : Type) where
  fruitedAxes : List String
  sporocarps : List (SporocarpReport F)
  candidateActive : Bool
  candidateDiverged : Bool
  divergenceReason : String

section

variable {F : Type} (parseF64 : String → Option F)

def fruitedAxis : Value → Except ResponseError String
  | .string s => .ok s
  | other => .error (.fruitedAxis other)

def sporocarpReport : Value → Except ResponseError (SporocarpReport F)
  | .map sp => do
    let sporocarpType ← (mapGetString sp "sporocarp_type").mapError .field
    let axisName ← (mapGetString sp "axis_name").mapError .field
    let repr ← (mapGetString sp "fruiting_value_repr").mapError .field
    let fruitingValue ← (parseF64 repr).elim (.error (.fruitingValue repr)) .ok
    let atCycle ← (mapGetUint sp "at_cycle").mapError .field
    let canonicalBytes ← (mapGetBytes sp "canonical_bytes").mapError .field
    let hash ← (mapGetBytes sp "hash").mapError .field
    if h : hash.length = 32 then
      .ok { sporocarpType, axisName, fruitingValue, atCycle, canonicalBytes, hash := ⟨hash, h⟩ }
    else .error (.hashSize hash.length)
  | other => .error (.sporocarp other)

def parseAdvanceResponse (response : Message) : Except ResponseError (AdvanceReport F) := do
  if response.messageType ≠ "advance_response" then
    .error (.messageType "advance_response" response.messageType)
  else
    let fruited ← (mapGetArray response.payload "fruited_axes").mapError .field
    let fruitedAxes ← fruited.mapM fruitedAxis
    let array ← (mapGetArray response.payload "sporocarps").mapError .field
    let sporocarps ← array.mapM (sporocarpReport parseF64)
    .ok {
      fruitedAxes, sporocarps
      candidateActive := ((OrdMap.get "candidate_active" response.payload).bind Value.bool?).getD false
      candidateDiverged :=
        ((OrdMap.get "candidate_diverged" response.payload).bind Value.bool?).getD false
      divergenceReason :=
        ((OrdMap.get "divergence_reason" response.payload).bind Value.string?).getD "" }

end

/-! ### Requests and responses -/

/-- The calls, whatever their deadlines. The other methods, and the hello of `spawn_and_handshake`,
send a request by the same function and check the type of the message that they get. -/
inductive Entry where
  | call (messageType : String) (payload : List (String × Value))
  | advance (currentCycle : UInt64)

inductive Reply (F : Type) where
  | message (m : Message)
  | report (r : AdvanceReport F)

def Entry.messageType : Entry → String
  | .call messageType _ => messageType
  | .advance _ => "advance"

def Entry.payload : Entry → List (String × Value)
  | .call _ payload => payload
  | .advance currentCycle => [("current_cycle", .uint currentCycle)]

/-- What the entry returns for the message that the request got. -/
def Entry.reply {F : Type} (parseF64 : String → Option F) : Entry → Message → Except CallError (Reply F)
  | .call _ _, m => .ok (.message m)
  | .advance _, m => ((parseAdvanceResponse parseF64 m).map .report).mapError .response

structure BridgeClient where
  nextRequestId : UInt64 := 1
  desynchronized : Bool := false

def stringOr (map : List (String × Value)) (key default : String) : String :=
  ((OrdMap.get key map).bind Value.string?).getD default

/-- `recv_response`, for a message that has come. -/
def acceptResponse (expected : UInt64) (response : Message) : Except CallError Message :=
  if response.messageType = "error" then
    .error (.workerError (stringOr response.payload "code" "<unknown_code>")
      (stringOr response.payload "message" "<no_message>"))
  else if response.requestId ≠ expected then
    .error (.correlationMismatch expected response.requestId)
  else .ok response

/-- What a call returns for what the reader thread has sent it. -/
def Entry.finish {F : Type} (parseF64 : String → Option F) (e : Entry) (expected : UInt64)
    (received : Except BridgeError Message) : Except CallError (Reply F) := do
  let response ← received.mapError .bridge
  let m ← acceptResponse expected response
  e.reply parseF64 m

/-- `send_request_with_timeout` up to the wait: the id of the request and what is written, if the
pipe takes it. -/
def BridgeClient.send (hmac : Hmac) (key : Hash32) (c : BridgeClient) (e : Entry) (broken : Bool) :
    Except CallError (UInt64 × Bytes) × BridgeClient :=
  if c.desynchronized then (.error .desynchronized, c)
  else
    let requestId := c.nextRequestId
    let msg : Message := { messageType := e.messageType, requestId, payload := e.payload }
    (match writeFrame (encodeFrameBody hmac key msg) with
      | .error e => .error (.bridge e)
      | .ok wire => if broken then .error (.bridge (.io .other)) else .ok (requestId, wire),
      { c with nextRequestId := c.nextRequestId + 1 })

/-- One turn of `reader_thread_body`: what it sends to the channel and what it has left to read,
unless it returns. A panic of the decoder ends the thread. -/
def readerTurn (hmac : Hmac) (key : Hash32) (arrivals : List Arrival) :
    Option (Except BridgeError Message) × Option (List Arrival) :=
  match readFrame arrivals with
  | (.ok (some frame), rest) =>
    match decodeFrameBody hmac key frame with
    | .ok m => (some (.ok m), some rest)
    | .error (.err e) => (some (.error e), some rest)
    | .error _ => (none, none)
  | (.ok none, _) =>
    (some (.error (.subprocess "python worker closed stdout (EOF); reader thread exiting")), none)
  | (.error e, _) => (some (.error e), none)

end Myco.Controller
