import Myco.Bridge.Frames
import Myco.Canonical.Renderer

/-!
# The operator's frames

`protocol/messages/wire.ts` and `protocol/framing.ts` of the operator package: a message as the
body of a frame, and the reader that cuts the frames out of the chunks a stream brings. A chunk
ends anywhere. What `tryReadFrame` takes from its queue is given by the bytes that the queue holds
(`tryReadFrame_whole`, `tryReadFrame_short`), however they are cut.
-/

namespace Myco.Operator

open Myco.Lib Myco.Canonical Myco.Bridge

/-! ### Messages -/

def protocolVersion : Int := 1
def hmacSize : Nat := 32
def maxFrameBodySize : Nat := 1024 * 1024

structure Message where
  version : Int := 1
  messageType : Ts.Str
  requestId : Int
  payload : List (Ts.Str × Ts.Value)

/-- The texts of `BridgeProtocolError`, `HmacMismatchError` and `FrameTooLargeError`, and what the
encoder and the stream throw. -/
inductive WireError where
  /-- `body decode failed: {}` -/
  | bodyDecode (e : Ts.DecodeError)
  /-- `body is not a Map: got {}` -/
  | bodyNotMap (got : Ts.Value)
  /-- `body missing/invalid '{}' field` -/
  | bodyField (name : String)
  /-- `protocol version mismatch: got {}, expected 1` -/
  | versionMismatch (got : Int)
  /-- `frame body too small: {} < HMAC size 32` -/
  | frameTooSmall (size : Nat)
  /-- `frame HMAC verification failed (wrong key or wire corruption)` -/
  | hmacMismatch
  /-- `incoming frame size {} exceeds cap 1048576` -/
  | incomingTooLarge (size : Int)
  /-- `outgoing frame size {} exceeds cap 1048576` -/
  | outgoingTooLarge (size : Nat)
  /-- `RangeError: Invalid typed array length: {}` -/
  | arrayLength (n : Int)
  | encode (e : Ts.Error)

def bodyToCanonicalBytes (m : Message) : Except Ts.Error Bytes :=
  Ts.encode (.map [(Ts.units "v", .uint m.version), (Ts.units "type", .string m.messageType),
    (Ts.units "request_id", .uint m.requestId), (Ts.units "payload", .map m.payload)])

def bodyOfMap (map : List (Ts.Str × Ts.Value)) : Except WireError Message :=
  match Ts.mapGet map "v" with
  | some (.uint version) =>
    if version ≠ protocolVersion then .error (.versionMismatch version)
    else
      match Ts.mapGet map "type" with
      | some (.string messageType) =>
        match Ts.mapGet map "request_id" with
        | some (.uint requestId) =>
          match Ts.mapGet map "payload" with
          | some (.map payload) => .ok { version, messageType, requestId, payload }
          | _ => .error (.bodyField "payload")
        | _ => .error (.bodyField "request_id")
      | _ => .error (.bodyField "type")
  | _ => .error (.bodyField "v")

def canonicalBytesToBody (body : Bytes) : Except WireError Message :=
  match Ts.decode body with
  | .error e => .error (.bodyDecode e)
  | .ok (.map map) => bodyOfMap map
  | .ok other => .error (.bodyNotMap other)

def encodeFrameBody (hmac : Hmac) (key : Hash32) (m : Message) : Except WireError Bytes := do
  let body ← (bodyToCanonicalBytes m).mapError .encode
  .ok ((hmac key body).bytes ++ body)

def decodeFrameBody (hmac : Hmac) (key : Hash32) (frame : Bytes) : Except WireError Message :=
  if frame.length < hmacSize then .error (.frameTooSmall frame.length)
  else if frame.take hmacSize ≠ (hmac key (frame.drop hmacSize)).bytes then .error .hmacMismatch
  else canonicalBytesToBody (frame.drop hmacSize)

/-! ### Framing -/

/-- `encodeFrame`: the length before the body. -/
def encodeFrame (body : Bytes) : Except WireError Bytes :=
  if body.length > maxFrameBodySize then .error (.outgoingTooLarge body.length)
  else .ok (beBytes 4 body.length ++ body)

/-- The chunks a `FrameReader` holds. -/
abbrev FrameReader := List Bytes

def FrameReader.push (queue : FrameReader) (chunk : Bytes) : FrameReader :=
  if chunk.length > 0 then queue ++ [chunk] else queue

/-- The loop of `pullBytes`, which has `need` bytes left to write. -/
def pullLoop : FrameReader → Nat → Bytes × FrameReader
  | [], _ => ([], [])
  | head :: queue, need =>
    if need = 0 then ([], head :: queue)
    else if head.length ≤ need then
      let (out, rest) := pullLoop queue (need - head.length)
      (head ++ out, rest)
    else (head.take need, head.drop need :: queue)

/-- A negative `n` is below every total, and no array has that length. -/
def pullBytes (queue : FrameReader) (n : Int) : Except WireError (Option (Bytes × FrameReader)) :=
  if (queue.map List.length).sum < n then .ok none
  else if n < 0 then .error (.arrayLength n)
  else .ok (some (pullLoop queue n.toNat))

/-- The four bytes put together with `<<` and `|`, which make a signed number of 32 bits. -/
def int32OfBe (lengthBytes : Bytes) : Int :=
  if beNat lengthBytes ≥ 2 ^ 31 then (beNat lengthBytes : Int) - 2 ^ 32 else beNat lengthBytes

/-- The result of `tryReadFrame` and the queue it leaves. -/
def tryReadFrame (queue : FrameReader) : Except WireError (Option Bytes) × FrameReader :=
  match pullBytes queue 4 with
  | .error e => (.error e, queue)
  | .ok none => (.ok none, queue)
  | .ok (some (lengthBytes, queue)) =>
    let length := int32OfBe lengthBytes
    if length > maxFrameBodySize then (.error (.incomingTooLarge length), queue)
    else
      match pullBytes queue length with
      | .error e => (.error e, queue)
      | .ok none => (.ok none, lengthBytes :: queue)
      | .ok (some (body, queue)) => (.ok (some body), queue)

/-! ### What the reader takes -/

section

variable {queue : FrameReader} {n : Nat} {body rest : Bytes}

theorem sum_length_eq : (queue.map List.length).sum = queue.flatten.length :=
  List.length_flatten.symm

theorem push_flatten {chunk : Bytes} : (queue.push chunk).flatten = queue.flatten ++ chunk := by
  unfold FrameReader.push
  split
  · rw [List.flatten_append, List.flatten_singleton]
  · rename_i h
    rw [List.length_eq_zero_iff.1 (Nat.eq_zero_of_not_pos h), List.append_nil]

theorem pullLoop_spec (h : n ≤ queue.flatten.length) :
    (pullLoop queue n).1 = queue.flatten.take n ∧
      (pullLoop queue n).2.flatten = queue.flatten.drop n := by
  induction queue generalizing n with
  | nil =>
    obtain rfl : n = 0 := Nat.le_zero.1 h
    exact ⟨rfl, rfl⟩
  | cons head queue ih =>
    rw [List.flatten_cons, List.length_append] at h
    unfold pullLoop
    by_cases h0 : n = 0
    · subst h0
      rw [if_pos rfl]
      exact ⟨rfl, rfl⟩
    · rw [if_neg h0]
      by_cases hle : head.length ≤ n
      · rw [if_pos hle]
        obtain ⟨h1, h2⟩ := @ih (n - head.length) (by omega)
        rw [List.flatten_cons, List.take_append, List.drop_append, List.take_of_length_le hle,
          List.drop_of_length_le hle, List.nil_append]
        exact ⟨congrArg (head ++ ·) h1, h2⟩
      · rw [if_neg hle, List.flatten_cons, List.take_append_of_le_length (by omega),
          List.drop_append_of_le_length (by omega)]
        exact ⟨rfl, rfl⟩

theorem pullBytes_enough (h : n ≤ queue.flatten.length) :
    ∃ queue', pullBytes queue n = .ok (some (queue.flatten.take n, queue')) ∧
      queue'.flatten = queue.flatten.drop n := by
  obtain ⟨h1, h2⟩ := pullLoop_spec h
  refine ⟨(pullLoop queue n).2, ?_, h2⟩
  unfold pullBytes
  rw [sum_length_eq, if_neg (by omega), if_neg (by omega), Int.toNat_natCast, ← h1]

theorem pullBytes_short (h : queue.flatten.length < n) : pullBytes queue n = .ok none := by
  unfold pullBytes
  rw [sum_length_eq, if_pos (by omega)]

theorem encodeFrame_eq (h : body.length ≤ maxFrameBodySize) :
    encodeFrame body = .ok (beBytes 4 body.length ++ body) :=
  if_neg (Nat.not_lt.2 h)

theorem int32OfBe_length (h : body.length ≤ maxFrameBodySize) :
    int32OfBe (beBytes 4 body.length) = body.length := by
  unfold maxFrameBodySize at h
  unfold int32OfBe
  rw [beNat_beBytes (by omega), if_neg (by omega)]

/-- A whole frame in front of the queue is taken. -/
theorem tryReadFrame_whole (hb : body.length ≤ maxFrameBodySize)
    (h : queue.flatten = beBytes 4 body.length ++ body ++ rest) :
    ∃ queue', tryReadFrame queue = (.ok (some body), queue') ∧ queue'.flatten = rest := by
  rw [List.append_assoc] at h
  have hlen := congrArg List.length h
  rw [List.length_append, List.length_append, beBytes_length] at hlen
  obtain ⟨q1, h1, hq1⟩ := @pullBytes_enough queue 4 (by omega)
  rw [h, List.take_left' beBytes_length] at h1
  rw [h, List.drop_left' beBytes_length] at hq1
  have hlen1 := congrArg List.length hq1
  rw [List.length_append] at hlen1
  obtain ⟨q2, h2, hq2⟩ := @pullBytes_enough q1 body.length (by omega)
  rw [hq1, List.take_left' rfl] at h2
  rw [hq1, List.drop_left' rfl] at hq2
  refine ⟨q2, ?_, hq2⟩
  unfold tryReadFrame
  rw [show ((4 : Nat) : Int) = 4 from rfl] at h1
  rw [h1]
  dsimp only
  rw [int32OfBe_length hb, if_neg (by omega), h2]

/-- Of a frame that is not all there, nothing is taken. -/
theorem tryReadFrame_short {ahead : Bytes} (hb : body.length ≤ maxFrameBodySize)
    (h : queue.flatten ++ ahead = beBytes 4 body.length ++ body ++ rest)
    (hlt : queue.flatten.length < 4 + body.length) :
    ∃ queue', tryReadFrame queue = (.ok none, queue') ∧ queue'.flatten = queue.flatten := by
  unfold tryReadFrame
  rcases Nat.lt_or_ge queue.flatten.length 4 with h4 | h4
  · have h1 : pullBytes queue 4 = .ok none := pullBytes_short h4
    exact ⟨queue, by rw [h1], rfl⟩
  · obtain ⟨q1, h1, hq1⟩ := pullBytes_enough h4
    have htake : queue.flatten.take 4 = beBytes 4 body.length := by
      have hgrow : (queue.flatten ++ ahead).take 4 = queue.flatten.take 4 :=
        List.take_append_of_le_length h4
      rw [← hgrow, h, List.append_assoc, List.take_left' beBytes_length]
    rw [htake, show ((4 : Nat) : Int) = 4 from rfl] at h1
    have h2 : pullBytes q1 body.length = .ok none := pullBytes_short <| by
      rw [hq1, List.length_drop]
      omega
    refine ⟨beBytes 4 body.length :: q1, ?_, ?_⟩
    · rw [h1]
      dsimp only
      rw [int32OfBe_length hb, if_neg (by omega), h2]
    · rw [List.flatten_cons, hq1, ← htake, List.take_append_drop]

theorem tryReadFrame_empty (h : queue.flatten = []) : tryReadFrame queue = (.ok none, queue) := by
  have h1 : pullBytes queue 4 = .ok none := pullBytes_short (by rw [h]; decide)
  unfold tryReadFrame
  rw [h1]

end

end Myco.Operator
