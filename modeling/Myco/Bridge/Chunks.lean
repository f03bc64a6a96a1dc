import Myco.Bridge.Timing

/-!
# Frames in chunks

`operators/claude/src/protocol/framing.ts` takes frames out of whatever chunks a pipe has delivered,
where `read_frame` of `kernel/bridge/rust/src/framing.rs` reads on until it has one. What either
reports of a stream depends on the bytes alone: it goes through the `items` of the stream one by
one (`client_reports`, `server_reports`).

They differ in how the four bytes of a length become a number. In TypeScript it is a signed one, so
that a length of 2 ^ 31 or more is negative, and fails where a buffer of that length is allocated.
-/

namespace Myco.Bridge

open Myco.Lib Myco.Canonical Myco.Substrate

/-! ### The code -/

inductive ReaderError where
  /-- `FrameTooLargeError` -/
  | frameTooLarge (what : String)
  /-- the `RangeError` of `new Uint8Array(length)` -/
  | invalidLength (length : Int)

/-- What a `FrameReader` has been given and has not used. -/
abbrev FrameReader := List Bytes

def FrameReader.push (queue : FrameReader) (chunk : Bytes) : FrameReader :=
  if chunk.length > 0 then queue ++ [chunk] else queue

/-- The loop of `pullBytes`, with how many bytes it needs and those that it has written. -/
def pullLoop : Nat → Bytes → FrameReader → Bytes × FrameReader
  | _, out, [] => (out, [])
  | need, out, head :: queue =>
    if need = 0 then (out, head :: queue)
    else if head.length ≤ need then pullLoop (need - head.length) (out ++ head) queue
    else (out ++ head.take need, head.drop need :: queue)

def pullBytes (queue : FrameReader) (n : Int) : Except ReaderError (Option Bytes) × FrameReader :=
  let total := (queue.map List.length).sum
  if total < n then (.ok none, queue)
  else if n < 0 then (.error (.invalidLength n), queue)
  else
    let (out, queue) := pullLoop n.toNat [] queue
    (.ok (some out), queue)

/-- `b[i] << k`, of 32 bits. -/
def shiftedByte (b : Bytes) (i k : Nat) : BitVec 32 := BitVec.ofNat 32 (b.getD i 0).toNat <<< k

/-- The number that `<<` and `|` make of four bytes. -/
def signedLength (b : Bytes) : Int :=
  (shiftedByte b 0 24 ||| shiftedByte b 1 16 ||| shiftedByte b 2 8 ||| shiftedByte b 3 0).toInt

def tryReadFrame (queue : FrameReader) : Except ReaderError (Option Bytes) × FrameReader :=
  match pullBytes queue 4 with
  | (.error e, queue) => (.error e, queue)
  | (.ok none, queue) => (.ok none, queue)
  | (.ok (some lengthBytes), queue) =>
    let length := signedLength lengthBytes
    if length > maxFrameBodySize then
      (.error (.frameTooLarge s!"incoming frame size {length} exceeds cap {maxFrameBodySize}"),
        queue)
    else
      match pullBytes queue length with
      | (.ok none, queue) => (.ok none, lengthBytes :: queue)
      | r => r

def encodeFrame (body : Bytes) : Except ReaderError Bytes :=
  if body.length > maxFrameBodySize then
    .error (.frameTooLarge s!"outgoing frame size {body.length} exceeds cap {maxFrameBodySize}")
  else
    let byte k := UInt8.ofNat (body.length >>> k &&& 0xff)
    .ok (byte 24 :: byte 16 :: byte 8 :: byte 0 :: body)

/-! ### What a stream is -/

/-- What a reader comes to say of a frame. -/
inductive Report where
  | body (b : Bytes)
  | tooLarge
  | failed
deriving DecidableEq

def ReaderError.report : ReaderError → Report
  | .frameTooLarge _ => .tooLarge
  | .invalidLength _ => .failed

/-- What a stream begins with. -/
inductive Front where
  | short
  | tooLarge (length : Nat) (rest : Bytes)
  | frame (body rest : Bytes)
deriving DecidableEq

def front (stream : Bytes) : Front :=
  let length := beNat (stream.take 4)
  let rest := stream.drop 4
  if stream.length < 4 then .short
  else if length > maxFrameBodySize then .tooLarge length rest
  else if rest.length < length then .short
  else .frame (rest.take length) (rest.drop length)

/-- A frame, or a length that no frame may have. -/
inductive Item where
  | body (b : Bytes)
  | oversize (length : Nat)
deriving DecidableEq

/-- What there is to say of it. -/
def Item.report : Item → Report
  | .body b => .body b
  | .oversize _ => .tooLarge

/-- What a `FrameReader` says of it. -/
def Item.clientReport : Item → Report
  | .body b => .body b
  | .oversize n => if n < 2 ^ 31 then .tooLarge else .failed

section

variable {s t lengthBytes body rest : Bytes} {n : Nat}

theorem front_frame (h : front s = .frame body rest) :
    ∃ lengthBytes, Frames lengthBytes body ∧ s = lengthBytes ++ body ++ rest := by
  unfold front at h
  dsimp only at h
  split at h
  · cases h
  split at h
  · cases h
  split at h
  · cases h
  cases h
  refine ⟨s.take 4, ⟨?_, ?_, ?_⟩, ?_⟩
  · rw [List.length_take]
    omega
  · rw [List.length_take]
    omega
  · rw [List.length_take]
    omega
  · rw [List.append_assoc, List.take_append_drop, List.take_append_drop]

theorem front_of_frames (h : Frames lengthBytes body) :
    front (lengthBytes ++ body ++ rest) = .frame body rest := by
  obtain ⟨h4, hlen, hmax⟩ := h
  unfold front
  rw [List.append_assoc, List.take_left' h4, List.drop_left' h4, hlen]
  dsimp only
  rw [if_neg (by rw [List.length_append]; omega), if_neg (by omega),
    if_neg (by rw [List.length_append]; omega), List.take_left, List.drop_left]

theorem front_tooLarge (h : front s = .tooLarge n rest) :
    ∃ lengthBytes, lengthBytes.length = 4 ∧ beNat lengthBytes = n ∧ n > maxFrameBodySize ∧
      s = lengthBytes ++ rest := by
  unfold front at h
  dsimp only at h
  split at h
  · cases h
  split at h
  · cases h
    refine ⟨s.take 4, ?_, rfl, ‹_›, (List.take_append_drop 4 s).symm⟩
    rw [List.length_take]
    omega
  · split at h <;> cases h

theorem front_of_tooLarge (h4 : lengthBytes.length = 4)
    (hmax : beNat lengthBytes > maxFrameBodySize) :
    front (lengthBytes ++ rest) = .tooLarge (beNat lengthBytes) rest := by
  unfold front
  rw [List.take_left' h4, List.drop_left' h4]
  dsimp only
  rw [if_neg (by rw [List.length_append]; omega), if_pos hmax]

theorem front_short (h : front s = .short) : s.length < 4 ∨
    4 ≤ s.length ∧ ¬ beNat (s.take 4) > maxFrameBodySize ∧
      (s.drop 4).length < beNat (s.take 4) := by
  unfold front at h
  dsimp only at h
  split at h
  · exact .inl ‹_›
  split at h
  · cases h
  split at h
  · exact .inr ⟨by omega, ‹_›, ‹_›⟩
  · cases h

theorem front_nil : front [] = .short := rfl

theorem length_of_front_frame (h : front s = .frame body rest) : rest.length < s.length := by
  obtain ⟨lengthBytes, ⟨h4, -, -⟩, rfl⟩ := front_frame h
  rw [List.length_append, List.length_append]
  omega

theorem length_of_front_tooLarge (h : front s = .tooLarge n rest) : rest.length < s.length := by
  obtain ⟨lengthBytes, h4, -, -, rfl⟩ := front_tooLarge h
  rw [List.length_append]
  omega

end

/-- The frames of a stream, up to where it ends within one. After a length that is too large a
reader goes on with what comes next. -/
def items (stream : Bytes) : List Item :=
  match _h : front stream with
  | .short => []
  | .tooLarge n rest => .oversize n :: items rest
  | .frame b rest => .body b :: items rest
termination_by stream.length
decreasing_by
  · exact length_of_front_tooLarge _h
  · exact length_of_front_frame _h

section

variable {s t lengthBytes body rest : Bytes} {n : Nat}

theorem items_short (h : front s = .short) : items s = [] := by
  unfold items
  split <;> simp_all

theorem items_tooLarge (h : front s = .tooLarge n rest) : items s = .oversize n :: items rest := by
  rw [items]
  split <;> simp_all

theorem items_frame (h : front s = .frame body rest) : items s = .body body :: items rest := by
  rw [items]
  split <;> simp_all

/-- What a stream begins with does not depend on what comes after it. -/
theorem items_append_tooLarge (h : front s = .tooLarge n rest) :
    items (s ++ t) = .oversize n :: items (rest ++ t) := by
  obtain ⟨lengthBytes, h4, rfl, hmax, rfl⟩ := front_tooLarge h
  rw [List.append_assoc]
  exact items_tooLarge (front_of_tooLarge h4 hmax)

theorem items_append_frame (h : front s = .frame body rest) :
    items (s ++ t) = .body body :: items (rest ++ t) := by
  obtain ⟨lengthBytes, hf, rfl⟩ := front_frame h
  rw [List.append_assoc]
  exact items_frame (front_of_frames hf)

end

/-! ### Pulling bytes -/

section

variable {queue : FrameReader} {n : Nat}

theorem flatten_push {chunk : Bytes} : (queue.push chunk).flatten = queue.flatten ++ chunk := by
  unfold FrameReader.push
  split
  · rw [List.flatten_append, List.flatten_singleton]
  · rw [List.eq_nil_of_length_eq_zero (l := chunk) (by omega), List.append_nil]

theorem pullLoop_eq {need : Nat} {out : Bytes} (h : need ≤ queue.flatten.length) :
    ∃ q, pullLoop need out queue = (out ++ queue.flatten.take need, q) ∧
      q.flatten = queue.flatten.drop need := by
  induction queue generalizing need out with
  | nil =>
    obtain rfl : need = 0 := by simpa using h
    exact ⟨[], by simp [pullLoop], rfl⟩
  | cons head queue ih =>
    rw [List.flatten_cons, List.length_append] at h
    rw [pullLoop, List.flatten_cons]
    split
    · rename_i h0
      subst h0
      exact ⟨head :: queue, by simp, rfl⟩
    split
    · rename_i hle
      obtain ⟨q, heq, hq⟩ := @ih (need - head.length) (out ++ head) (by omega)
      refine ⟨q, ?_, ?_⟩
      · rw [heq, List.take_append, List.take_of_length_le hle, List.append_assoc]
      · rw [hq, List.drop_append, List.drop_eq_nil_of_le hle, List.nil_append]
    · rename_i hgt
      refine ⟨head.drop need :: queue, ?_, ?_⟩
      · rw [List.take_append_of_le_length (by omega)]
      · rw [List.flatten_cons, List.drop_append_of_le_length (by omega)]

theorem pullBytes_short (h : queue.flatten.length < n) : pullBytes queue n = (.ok none, queue) := by
  rw [List.length_flatten] at h
  unfold pullBytes
  exact if_pos (by omega)

theorem pullBytes_enough (h : n ≤ queue.flatten.length) :
    ∃ q, pullBytes queue n = (.ok (some (queue.flatten.take n)), q) ∧
      q.flatten = queue.flatten.drop n := by
  obtain ⟨q, heq, hq⟩ := @pullLoop_eq queue n [] h
  refine ⟨q, ?_, hq⟩
  rw [List.length_flatten] at h
  unfold pullBytes
  rw [if_neg (by omega), if_neg (by omega), Int.toNat_natCast, heq]
  rfl

theorem pullBytes_negative {i : Int} (h : i < 0) :
    pullBytes queue i = (.error (.invalidLength i), queue) := by
  unfold pullBytes
  rw [if_neg (by omega), if_pos h]

end

theorem shiftedByte_toNat {b : Bytes} {i k : Nat} (hk : k ≤ 24) :
    (shiftedByte b i k).toNat = (b.getD i 0).toNat <<< k := by
  have hb : (b.getD i 0).toNat < 2 ^ 8 := UInt8.toNat_lt _
  have hlt : (b.getD i 0).toNat * 2 ^ k < 2 ^ 8 * 2 ^ 24 :=
    Nat.mul_lt_mul_of_lt_of_le hb (Nat.pow_le_pow_right (by decide) hk) (by decide)
  rw [shiftedByte, BitVec.toNat_shiftLeft, BitVec.toNat_ofNat,
    Nat.mod_eq_of_lt (a := UInt8.toNat _) (by omega), Nat.shiftLeft_eq]
  exact Nat.mod_eq_of_lt hlt

/-- Bytes that are shifted apart are added. -/
theorem or_shifted {a b c d : Nat} (hb : b < 2 ^ 8) (hc : c < 2 ^ 8) (hd : d < 2 ^ 8) :
    a <<< 24 ||| b <<< 16 ||| c <<< 8 ||| d = ((a * 256 + b) * 256 + c) * 256 + d := by
  have hcd : c <<< 8 + d < 2 ^ 16 := by
    rw [Nat.shiftLeft_eq]
    omega
  have hbcd : b <<< 16 + (c <<< 8 + d) < 2 ^ 24 := by
    rw [Nat.shiftLeft_eq]
    omega
  rw [Nat.or_assoc, Nat.or_assoc, ← Nat.shiftLeft_add_eq_or_of_lt hd,
    ← Nat.shiftLeft_add_eq_or_of_lt hcd, ← Nat.shiftLeft_add_eq_or_of_lt hbcd]
  simp only [Nat.shiftLeft_eq]
  omega

/-- It is the number that the bytes spell, wrapped around. -/
theorem signedLength_eq {b : Bytes} (h : b.length = 4) :
    signedLength b = if beNat b < 2 ^ 31 then (beNat b : Int) else beNat b - 2 ^ 32 := by
  obtain ⟨b0, b1, b2, b3, rfl⟩ : ∃ b0 b1 b2 b3, b = [b0, b1, b2, b3] := by
    match b, h with
    | [b0, b1, b2, b3], _ => exact ⟨b0, b1, b2, b3, rfl⟩
  have hnat : (shiftedByte [b0, b1, b2, b3] 0 24 ||| shiftedByte [b0, b1, b2, b3] 1 16 |||
      shiftedByte [b0, b1, b2, b3] 2 8 ||| shiftedByte [b0, b1, b2, b3] 3 0).toNat =
        beNat [b0, b1, b2, b3] := by
    rw [BitVec.toNat_or, BitVec.toNat_or, BitVec.toNat_or, shiftedByte_toNat (by decide),
      shiftedByte_toNat (by decide), shiftedByte_toNat (by decide), shiftedByte_toNat (by decide),
      Nat.shiftLeft_zero]
    refine (or_shifted (UInt8.toNat_lt _) (UInt8.toNat_lt _) (UInt8.toNat_lt _)).trans ?_
    simp [beNat]
  rw [signedLength, BitVec.toInt_eq_toNat_cond, hnat]
  split <;> split <;> first | rfl | omega

/-! ### One frame -/

section

variable {queue : FrameReader} {s body rest : Bytes} {n : Nat}

/-- A frame that is not there yet is left in the queue. -/
theorem tryReadFrame_short (h : front queue.flatten = .short) :
    ∃ q, tryReadFrame queue = (.ok none, q) ∧ q.flatten = queue.flatten := by
  rcases front_short h with hlt | ⟨h4, hmax, hlt⟩
  · refine ⟨queue, ?_, rfl⟩
    rw [tryReadFrame, show (4 : Int) = (4 : Nat) from rfl, pullBytes_short hlt]
  · obtain ⟨q, heq, hq⟩ := pullBytes_enough h4
    have hlen : (queue.flatten.take 4).length = 4 := by
      rw [List.length_take]
      omega
    have hsigned : signedLength (queue.flatten.take 4) = beNat (queue.flatten.take 4) := by
      rw [signedLength_eq hlen, if_pos]
      simp only [maxFrameBodySize] at hmax
      omega
    refine ⟨queue.flatten.take 4 :: q, ?_, ?_⟩
    · rw [tryReadFrame, show (4 : Int) = (4 : Nat) from rfl, heq]
      dsimp only
      rw [hsigned, if_neg (by omega), pullBytes_short (by rwa [hq])]
    · rw [List.flatten_cons, hq, List.take_append_drop]

theorem tryReadFrame_frame (h : front queue.flatten = .frame body rest) :
    ∃ q, tryReadFrame queue = (.ok (some body), q) ∧ q.flatten = rest := by
  obtain ⟨lengthBytes, ⟨h4, hlen, hmax⟩, hs⟩ := front_frame h
  obtain ⟨q, heq, hq⟩ := @pullBytes_enough queue 4 (by
    rw [hs, List.length_append, List.length_append]
    omega)
  rw [hs, List.append_assoc, List.take_left' h4] at heq
  rw [hs, List.append_assoc, List.drop_left' h4] at hq
  obtain ⟨q', heq', hq'⟩ := @pullBytes_enough q body.length (by
    rw [hq, List.length_append]
    omega)
  rw [hq, List.take_left] at heq'
  rw [hq, List.drop_left] at hq'
  have hsigned : signedLength lengthBytes = body.length := by
    rw [signedLength_eq h4, hlen, if_pos]
    simp only [maxFrameBodySize] at hmax
    omega
  refine ⟨q', ?_, hq'⟩
  rw [tryReadFrame, show (4 : Int) = (4 : Nat) from rfl, heq]
  dsimp only
  rw [hsigned, if_neg (by omega), heq']

/-- A length that is too large is reported as such, if it is not taken for a negative one. -/
theorem tryReadFrame_tooLarge (h : front queue.flatten = .tooLarge n rest) :
    ∃ e q, tryReadFrame queue = (.error e, q) ∧ q.flatten = rest ∧
      e.report = (Item.oversize n).clientReport := by
  obtain ⟨lengthBytes, h4, rfl, hmax, hs⟩ := front_tooLarge h
  have hlt : beNat lengthBytes < 2 ^ 32 := by
    have := @beNat_lt lengthBytes
    rwa [h4] at this
  obtain ⟨q, heq, hq⟩ := @pullBytes_enough queue 4 (by
    rw [hs, List.length_append]
    omega)
  rw [hs, List.take_left' h4] at heq
  rw [hs, List.drop_left' h4] at hq
  have hread : tryReadFrame queue =
      if signedLength lengthBytes > maxFrameBodySize then
        (.error (.frameTooLarge s!"incoming frame size {signedLength lengthBytes} exceeds cap {
          maxFrameBodySize}"), q)
      else match pullBytes q (signedLength lengthBytes) with
        | (.ok none, queue) => (.ok none, lengthBytes :: queue)
        | r => r := by
    rw [tryReadFrame, show (4 : Int) = (4 : Nat) from rfl, heq]
  rw [hread, signedLength_eq h4]
  by_cases hn : beNat lengthBytes < 2 ^ 31
  · rw [if_pos hn, if_pos (by omega)]
    exact ⟨_, q, rfl, hq, (if_pos hn).symm⟩
  · rw [if_neg hn, if_neg (by omega), pullBytes_negative (by omega)]
    exact ⟨_, q, rfl, hq, (if_neg hn).symm⟩

end

/-! ### All frames of a stream -/

/-- A chunk has come, or a frame is asked for. -/
inductive ReaderCall where
  | push (chunk : Bytes)
  | tryRead

/-- What `tryReadFrame` answers, call by call. -/
def answers : List ReaderCall → FrameReader → List (Except ReaderError (Option Bytes))
  | [], _ => []
  | .push chunk :: calls, queue => answers calls (queue.push chunk)
  | .tryRead :: calls, queue =>
    let (answer, queue) := tryReadFrame queue
    answer :: answers calls queue

def pushed : List ReaderCall → Bytes
  | [] => []
  | .push chunk :: calls => chunk ++ pushed calls
  | .tryRead :: calls => pushed calls

/-- Nothing is said of a frame that is not there yet. -/
def answerReport : Except ReaderError (Option Bytes) → Option Report
  | .ok none => none
  | .ok (some b) => some (.body b)
  | .error e => some e.report

/-- What `k` successive `read_frame`s return. -/
def frameReads : Nat → List Arrival → List (Except BridgeError (Option Bytes))
  | 0, _ => []
  | k + 1, arrivals =>
    let (r, rest) := readFrame arrivals
    r :: frameReads k rest

/-- Nothing is said where a stream ends, be it within a frame. -/
def readReport : Except BridgeError (Option Bytes) → Option Report
  | .ok none => none
  | .ok (some b) => some (.body b)
  | .error (.frameTooLarge _) => some .tooLarge
  | .error (.subprocess _) => none
  | .error _ => some .failed

/-- The chunks, as a socket yields them. -/
def socket (chunks : List Bytes) : List Arrival := chunks.foldr unread []

/-- What a `FrameReader` says that gets the stream in pieces, and in the end is asked until nothing
is left. -/
def ClientReports (stream : Bytes) (rs : List Report) : Prop :=
  ∃ calls n, pushed calls = stream ∧ stream.length ≤ n ∧
    rs = (answers (calls ++ List.replicate n .tryRead) []).filterMap answerReport

/-- What the `read_frame`s say of the stream. -/
def ServerReports (stream : Bytes) (rs : List Report) : Prop :=
  ∃ chunks k, chunks.flatten = stream ∧ stream.length ≤ k ∧
    rs = (frameReads k (socket chunks)).filterMap readReport

section

variable {queue : FrameReader} {n : Nat}

theorem answers_drained (h : front queue.flatten = .short) :
    (answers (List.replicate n .tryRead) queue).filterMap answerReport = [] := by
  induction n generalizing queue with
  | zero => rfl
  | succ n ih =>
    obtain ⟨q, heq, hq⟩ := tryReadFrame_short h
    rw [List.replicate_succ, answers, heq]
    exact ih (hq ▸ h)

theorem answers_drain (h : queue.flatten.length ≤ n) :
    (answers (List.replicate n .tryRead) queue).filterMap answerReport =
      (items queue.flatten).map Item.clientReport := by
  induction n generalizing queue with
  | zero =>
    rw [List.eq_nil_of_length_eq_zero (Nat.le_zero.1 h), items_short front_nil]
    rfl
  | succ n ih =>
    rw [List.replicate_succ, answers]
    cases hf : front queue.flatten with
    | short =>
      obtain ⟨q, heq, hq⟩ := tryReadFrame_short hf
      rw [heq, items_short hf]
      exact answers_drained (hq ▸ hf)
    | tooLarge length rest =>
      obtain ⟨e, q, heq, rfl, hreport⟩ := tryReadFrame_tooLarge hf
      have hlt := length_of_front_tooLarge hf
      rw [heq, items_tooLarge hf, List.map_cons, ← hreport, ← ih (by omega)]
      rfl
    | frame body rest =>
      obtain ⟨q, heq, rfl⟩ := tryReadFrame_frame hf
      have hlt := length_of_front_frame hf
      rw [heq, items_frame hf, List.map_cons, ← ih (by omega)]
      rfl

/-- However the calls are interleaved, the items come out one by one. -/
theorem answers_items {calls : List ReaderCall}
    (h : (queue.flatten ++ pushed calls).length ≤ n) :
    (answers (calls ++ List.replicate n .tryRead) queue).filterMap answerReport =
      (items (queue.flatten ++ pushed calls)).map Item.clientReport := by
  induction calls generalizing queue with
  | nil =>
    rw [pushed, List.append_nil] at h ⊢
    exact answers_drain h
  | cons call calls ih =>
    cases call with
    | push chunk =>
      rw [pushed, ← List.append_assoc, ← flatten_push] at h ⊢
      exact ih h
    | tryRead =>
      rw [pushed] at h ⊢
      rw [List.cons_append, answers]
      cases hf : front queue.flatten with
      | short =>
        obtain ⟨q, heq, hq⟩ := tryReadFrame_short hf
        rw [heq, ← hq]
        exact ih (hq ▸ h)
      | tooLarge length rest =>
        obtain ⟨e, q, heq, rfl, hreport⟩ := tryReadFrame_tooLarge hf
        have hlt := length_of_front_tooLarge hf
        rw [List.length_append] at h
        rw [heq, items_append_tooLarge hf, List.map_cons, ← hreport,
          ← ih (by rw [List.length_append]; omega)]
        rfl
      | frame body rest =>
        obtain ⟨q, heq, rfl⟩ := tryReadFrame_frame hf
        have hlt := length_of_front_frame hf
        rw [List.length_append] at h
        rw [heq, items_append_frame hf, List.map_cons, ← ih (by rw [List.length_append]; omega)]
        rfl

theorem client_reports {stream : Bytes} {rs : List Report} (h : ClientReports stream rs) :
    rs = (items stream).map Item.clientReport := by
  obtain ⟨calls, n, rfl, hn, rfl⟩ := h
  exact answers_items hn

end

section

variable {arrivals : List Arrival} {k : Nat}

theorem ready_unread {bs : Bytes} {rest : List Arrival} :
    ready (unread bs rest) = bs ++ ready rest := unread_leaves.ready_eq

theorem later_unread {bs : Bytes} {rest : List Arrival} :
    later (unread bs rest) = later rest := unread_leaves.later_eq

theorem ready_socket {chunks : List Bytes} : ready (socket chunks) = chunks.flatten := by
  induction chunks with
  | nil => rfl
  | cons chunk chunks ih => rw [socket, List.foldr_cons, ready_unread, ← socket, ih]; rfl

theorem later_socket {chunks : List Bytes} : later (socket chunks) = [] := by
  induction chunks with
  | nil => rfl
  | cons chunk chunks ih => rw [socket, List.foldr_cons, later_unread, ← socket, ih]

theorem frameReads_ended : (frameReads k []).filterMap readReport = [] := by
  induction k with
  | zero => rfl
  | succ k ih => exact ih

/-- Of a stream that ends in a frame, nothing is left. -/
theorem readFrame_short (h : front (ready arrivals) = .short) (hl : later arrivals = []) :
    ∃ r, readFrame arrivals = (r, []) ∧ readReport r = none := by
  rcases front_short h with hlt | ⟨h4, hmax, hlt⟩
  · have heof := readExactOrEof_eof hlt hl
    split at heof
    · refine ⟨.ok none, ?_, rfl⟩
      rw [readFrame, heof]
    · exact ⟨_, readFrame_error heof, rfl⟩
  · obtain ⟨rest, heq, hleft⟩ := readExactOrEof_enough h4
    have heof := readExactOrEof_eof (by rwa [hleft.ready_eq]) (hleft.later_eq.trans hl)
    split at heof
    · exact ⟨_, readFrame_body_none heq hmax heof, rfl⟩
    · exact ⟨_, readFrame_body_error heq hmax heof, rfl⟩

theorem readFrame_tooLarge {n : Nat} {s : Bytes} (h : front (ready arrivals) = .tooLarge n s) :
    ∃ what rest, readFrame arrivals = (.error (.frameTooLarge what), rest) ∧
      Leaves arrivals rest s (later arrivals) := by
  obtain ⟨lengthBytes, h4, rfl, hmax, hs⟩ := front_tooLarge h
  obtain ⟨rest, heq, hleft⟩ := @readExactOrEof_enough 4 arrivals (by
    rw [hs, List.length_append]
    omega)
  rw [hs, List.take_left' h4] at heq
  rw [hs, List.drop_left' h4] at hleft
  unfold readFrame
  rw [heq]
  dsimp only
  rw [if_pos hmax]
  exact ⟨_, rest, rfl, hleft⟩

theorem frameReads_items (hl : later arrivals = []) (hk : (ready arrivals).length ≤ k) :
    (frameReads k arrivals).filterMap readReport = (items (ready arrivals)).map Item.report := by
  induction k generalizing arrivals with
  | zero =>
    rw [List.eq_nil_of_length_eq_zero (Nat.le_zero.1 hk), items_short front_nil]
    rfl
  | succ k ih =>
    rw [frameReads]
    cases hf : front (ready arrivals) with
    | short =>
      obtain ⟨r, heq, hr⟩ := readFrame_short hf hl
      rw [heq, items_short hf, List.filterMap_cons_none hr]
      exact frameReads_ended
    | tooLarge length s =>
      obtain ⟨what, rest, heq, hleft⟩ := readFrame_tooLarge hf
      have hlt := length_of_front_tooLarge hf
      rw [heq, items_tooLarge hf, List.map_cons, ← hleft.ready_eq,
        ← ih (hleft.later_eq.trans hl) (by rw [hleft.ready_eq]; omega)]
      rfl
    | frame body s =>
      obtain ⟨lengthBytes, hframes, hs⟩ := front_frame hf
      obtain ⟨rest, heq, hleft⟩ := readFrame_whole hframes hs
      have hlt := length_of_front_frame hf
      rw [heq, items_frame hf, List.map_cons, ← hleft.ready_eq,
        ← ih (hleft.later_eq.trans hl) (by rw [hleft.ready_eq]; omega)]
      rfl

theorem server_reports {stream : Bytes} {rs : List Report} (h : ServerReports stream rs) :
    rs = (items stream).map Item.report := by
  obtain ⟨chunks, k, rfl, hk, rfl⟩ := h
  rw [← ready_socket] at hk ⊢
  exact frameReads_items later_socket hk

end

/-! ### Writing -/

theorem encodeFrame_ok {body frame : Bytes} (h : encodeFrame body = .ok frame) :
    ∃ lengthBytes, Frames lengthBytes body ∧ frame = lengthBytes ++ body := by
  unfold encodeFrame at h
  split at h
  · cases h
  · cases h
    refine ⟨beBytes 4 body.length, ⟨beBytes_length, beNat_beBytes ?_, by omega⟩, ?_⟩
    · simp only [maxFrameBodySize] at *
      omega
    · have hbyte : ∀ n, UInt8.ofNat (n &&& 0xff) = UInt8.ofNat n := by
        intro n
        apply UInt8.toNat_inj.1
        rw [show (0xff : Nat) = 2 ^ 8 - 1 from rfl, Nat.and_two_pow_sub_one_eq_mod]
        simp
      simp [hbyte, Nat.shiftRight_eq_div_pow, beBytes, Nat.div_div_eq_div_mul]

/-- Frames that are written one after another are the items of what has been written. -/
theorem items_encoded {bodies frames : List Bytes} (h : bodies.mapM encodeFrame = .ok frames) :
    items frames.flatten = bodies.map Item.body := by
  induction bodies generalizing frames with
  | nil =>
    cases h
    exact items_short front_nil
  | cons body bodies ih =>
    rw [List.mapM_cons] at h
    obtain ⟨frame, hframe, h⟩ := bind_eq_ok.1 h
    obtain ⟨frames', hframes, h⟩ := bind_eq_ok.1 h
    cases h
    obtain ⟨lengthBytes, hf, rfl⟩ := encodeFrame_ok hframe
    rw [List.flatten_cons, items_frame (front_of_frames hf), ih hframes, List.map_cons]

/-! ### The two readers -/

def Report.body? : Report → Option Bytes
  | .body b => some b
  | _ => none

/-- The bodies that are returned are the same, for frames that were written those that were written,
and both report of every length that is too large that it is. -/
structure ReadersAgree (stream : Bytes) : Prop where
  bodies : ∀ client server, ClientReports stream client → ServerReports stream server →
    client.filterMap Report.body? = server.filterMap Report.body?
  written : ∀ bodies frames, bodies.mapM encodeFrame = .ok frames → frames.flatten = stream →
    ∀ rs, ClientReports stream rs ∨ ServerReports stream rs → rs.filterMap Report.body? = bodies
  tooLarge : ∀ rs, ClientReports stream rs ∨ ServerReports stream rs →
    rs = (items stream).map Item.report

theorem body?_clientReport {i : Item} : i.clientReport.body? = i.report.body? := by
  cases i with
  | body b => rfl
  | oversize n =>
    rw [Item.clientReport]
    split <;> rfl

theorem exists_clientReports (stream : Bytes) : ∃ rs, ClientReports stream rs :=
  ⟨_, [.push stream], stream.length, List.append_nil stream, le_rfl, rfl⟩

/-- The bodies of the items, whichever of the two readers it is. -/
theorem bodies_of_reports {stream : Bytes} {rs : List Report}
    (h : ClientReports stream rs ∨ ServerReports stream rs) :
    rs.filterMap Report.body? = (items stream).filterMap fun i => i.report.body? := by
  rcases h with h | h
  · rw [client_reports h, List.filterMap_map]
    exact List.filterMap_congr fun i _ => body?_clientReport
  · rw [server_reports h, List.filterMap_map]
    rfl

/-- The two readers agree on a stream just if no length that they come to in it is 2 ^ 31 or
more. -/
theorem readers_agree_iff (stream : Bytes) :
    ReadersAgree stream ↔ ∀ n, Item.oversize n ∈ items stream → n < 2 ^ 31 := by
  constructor
  · intro h n hn
    obtain ⟨rs, hrs⟩ := exists_clientReports stream
    have hsame := (client_reports hrs).symm.trans (h.tooLarge rs (.inl hrs))
    have hreport := List.map_inj_left.1 hsame _ hn
    by_contra hge
    rw [Item.clientReport, if_neg hge] at hreport
    cases hreport
  · intro h
    refine ⟨fun client server hc hs => ?_, fun bodies frames henc hstream rs hrs => ?_,
      fun rs hrs => ?_⟩
    · rw [bodies_of_reports (.inl hc), bodies_of_reports (.inr hs)]
    · rw [bodies_of_reports hrs, ← hstream, items_encoded henc, List.filterMap_map]
      exact List.filterMap_some
    · rcases hrs with hrs | hrs
      · rw [client_reports hrs]
        refine List.map_congr_left fun i hi => ?_
        cases i with
        | body b => rfl
        | oversize n => exact if_pos (h n hi)
      · exact server_reports hrs

/-- A length of 2 ^ 31 is too large, and the client reports something else. -/
theorem high_length_misread : ¬ ReadersAgree [0x80, 0, 0, 0] := by
  intro h
  have hrs : ClientReports [0x80, 0, 0, 0] [.failed] :=
    ⟨[.push [0x80, 0, 0, 0]], 4, rfl, le_rfl, by decide⟩
  have hfront : front [0x80, 0, 0, 0] = .tooLarge (2 ^ 31) [] := by decide
  have hitems : items [0x80, 0, 0, 0] = [.oversize (2 ^ 31)] := by
    rw [items_tooLarge hfront, items_short front_nil]
  have hfailed := h.tooLarge _ (.inl hrs)
  rw [hitems] at hfailed
  cases hfailed

end Myco.Bridge
