import Myco.Controller.Client

/-!
# Calls and their answers

A `BridgeClient`, its reader thread, and a worker that answers the requests in order, each with one
frame of bytes of its own choosing, when it likes or never. The threads take turns in any order;
the pipe hands the answers over in chunks that end anywhere.

The stream is serial: while no call has timed out, the answers that have been received are those of
the calls that have returned (`Serial`). So a call that returns a message, or the error of a worker,
returns the answer to its own request, and after a timeout every call fails before it writes
(`calls_get_own_answers`).
-/

namespace Myco.Controller

open Myco.Lib Myco.Canonical Myco.Substrate Myco.Bridge

/-! ### The two processes -/

structure Link where
  client : BridgeClient := {}
  /-- The call that waits for a response, with the id of its request. -/
  waiting : Option (Entry × UInt64) := none
  /-- The frames that the worker has been sent. -/
  requests : List Bytes := []
  /-- The bodies of the frames that it has answered with. -/
  answers : List Bytes := []
  /-- The bytes of the worker's output that the reader thread has not read. -/
  stdout : Bytes := []
  stdoutClosed : Bool := false
  /-- The worker reads no more requests. -/
  stdinClosed : Bool := false
  /-- The reader thread has not returned. -/
  reading : Bool := true
  /-- What is in the channel. -/
  responses : List (Except BridgeError Message) := []

inductive Act (F : Type) where
  /-- A call failed before the worker was sent a request. -/
  | refused (e : CallError)
  /-- A call has sent its request. -/
  | wrote (e : Entry) (requestId : UInt64)
  | answered (body : Bytes)
  /-- The call that waited returned. -/
  | returned (r : Except CallError (Reply F))
  | other

/-- The reader thread would wait for more. -/
def Starves : Except BridgeError (Option Bytes) → Prop
  | .ok none | .error (.subprocess _) => True
  | _ => False

def wireOf (body : Bytes) : Bytes := beBytes 4 body.length ++ body

inductive LinkStep {F : Type} (parseF64 : String → Option F) (hmac : Hmac) (key : Hash32) :
    Link → Act F → Link → Prop
  | refused {l : Link} {key' : Hash32} {e : Entry} {err : CallError} {c : BridgeClient}
      (hidle : l.waiting = none)
      (h : l.client.send hmac key' e l.stdinClosed = (.error err, c)) :
      LinkStep parseF64 hmac key l (.refused err) { l with client := c }
  | wrote {l : Link} {key' : Hash32} {e : Entry} {requestId : UInt64} {wire : Bytes}
      {c : BridgeClient} (hidle : l.waiting = none)
      (h : l.client.send hmac key' e l.stdinClosed = (.ok (requestId, wire), c)) :
      LinkStep parseF64 hmac key l (.wrote e requestId)
        { l with client := c, waiting := some (e, requestId), requests := l.requests ++ [wire] }
  | answer {l : Link} (body : Bytes) (hsize : body.length < 2 ^ 32)
      (hdue : l.answers.length < l.requests.length) (hopen : l.stdoutClosed = false) :
      LinkStep parseF64 hmac key l (.answered body)
        { l with answers := l.answers ++ [body], stdout := l.stdout ++ wireOf body }
  | closeStdout {l : Link} : LinkStep parseF64 hmac key l .other { l with stdoutClosed := true }
  | closeStdin {l : Link} : LinkStep parseF64 hmac key l .other { l with stdinClosed := true }
  | read {l : Link} {arrivals rest : List Arrival} {sent : Option (Except BridgeError Message)}
      (hreading : l.reading = true) (hpipe : arrived arrivals = l.stdout)
      (hready : Starves (readFrame arrivals).1 → l.stdoutClosed = true)
      (h : readerTurn hmac key arrivals = (sent, some rest)) :
      LinkStep parseF64 hmac key l .other
        { l with stdout := arrived rest, responses := l.responses ++ sent.toList }
  | stop {l : Link} {arrivals : List Arrival} {sent : Option (Except BridgeError Message)}
      (hreading : l.reading = true) (hpipe : arrived arrivals = l.stdout)
      (hready : Starves (readFrame arrivals).1 → l.stdoutClosed = true)
      (h : readerTurn hmac key arrivals = (sent, none)) :
      LinkStep parseF64 hmac key l .other
        { l with reading := false, responses := l.responses ++ sent.toList }
  | receive {l : Link} {e : Entry} {requestId : UInt64} {r : Except BridgeError Message}
      {responses : List (Except BridgeError Message)} (hwait : l.waiting = some (e, requestId))
      (h : l.responses = r :: responses) :
      LinkStep parseF64 hmac key l (.returned (e.finish parseF64 requestId r))
        { l with waiting := none, responses }
  | timeout {l : Link} {w : Entry × UInt64} (hwait : l.waiting = some w) (h : l.responses = [])
      (hreading : l.reading = true) :
      LinkStep parseF64 hmac key l (.returned (.error .timeout))
        { l with waiting := none, client := { l.client with desynchronized := true } }
  | disconnected {l : Link} {w : Entry × UInt64} (hwait : l.waiting = some w)
      (h : l.responses = []) (hgone : l.reading = false) :
      LinkStep parseF64 hmac key l (.returned (.error .disconnected)) { l with waiting := none }

/-! ### What the calls get -/

section

variable {F : Type} {parseF64 : String → Option F} {hmac : Hmac} {key : Hash32}

def wroteIn (xs : List (Act F)) : List (Entry × UInt64) :=
  xs.filterMap fun
    | .wrote e requestId => some (e, requestId)
    | _ => none

def answersIn (xs : List (Act F)) : List Bytes :=
  xs.filterMap fun
    | .answered body => some body
    | _ => none

/-- A message, or the error that the worker reports. -/
def IsAnswer : Except CallError (Reply F) → Prop
  | .ok _ | .error (.workerError _ _) => True
  | .error _ => False

/-- The result is what the last call makes of the answer to its request: of the answers, the one
that has the place of this request among the requests. -/
def OwnAnswer (parseF64 : String → Option F) (hmac : Hmac) (key : Hash32) (pre : List (Act F))
    (r : Except CallError (Reply F)) : Prop :=
  ∃ ws e requestId body m, wroteIn pre = ws ++ [(e, requestId)] ∧
    (answersIn pre)[ws.length]? = some body ∧ decodeFrameBody hmac key body = .ok m ∧
    r = e.finish parseF64 requestId (.ok m)

/-- The call did not write. -/
def Poisoned : Act F → Prop
  | .refused e => e = .desynchronized
  | .wrote _ _ | .returned _ => False
  | .answered _ | .other => True

/-! ### What the reader reads -/

theorem arrived_unread {bs : Bytes} {rest : List Arrival} :
    arrived (unread bs rest) = bs ++ arrived rest := by
  cases bs <;> rfl

theorem readLoop_ok {n : Nat} {read out : Bytes} {arrivals rest : List Arrival}
    (h : readLoop n read arrivals = (.ok (some out), rest)) (hlt : read.length < n) :
    out.length = n ∧ read ++ arrived arrivals = out ++ arrived rest := by
  induction arrivals generalizing read with
  | nil =>
    unfold readLoop at h
    split at h <;> cases h
  | cons a arrivals ih =>
    cases a with
    | failure kind =>
      unfold readLoop at h
      split at h
      · exact ih h hlt
      · cases h
    | chunk b bs =>
      have hlen : ((b :: bs).take (n - read.length)).length =
          min (n - read.length) (b :: bs).length := List.length_take
      unfold readLoop at h
      dsimp only at h
      split at h
      · rename_i hmore
        obtain ⟨h1, h2⟩ := ih h (by rwa [List.length_append])
        refine ⟨h1, ?_⟩
        rw [← h2, List.take_of_length_le (by omega), List.append_assoc]
        rfl
      · rename_i hfull
        obtain ⟨hout, hrest⟩ := Prod.mk.inj h
        obtain rfl : read ++ (b :: bs).take (n - read.length) = out := by
          simpa using hout
        refine ⟨?_, ?_⟩
        · rw [List.length_append]
          omega
        · rw [← hrest, arrived_unread, List.append_assoc, ← List.append_assoc (List.take _ _),
            List.take_append_drop]
          rfl

theorem readExactOrEof_ok {n : Nat} {out : Bytes} {arrivals rest : List Arrival}
    (h : readExactOrEof n arrivals = (.ok (some out), rest)) :
    out.length = n ∧ arrived arrivals = out ++ arrived rest := by
  unfold readExactOrEof at h
  split at h
  · rename_i h0
    cases h
    exact ⟨h0.symm, rfl⟩
  · exact readLoop_ok h (Nat.pos_of_ne_zero ‹_›)

theorem readFrame_nonempty {frame : Bytes} {arrivals rest : List Arrival}
    (h : readFrame arrivals = (.ok (some frame), rest)) : ∃ b bs, arrived arrivals = b :: bs := by
  unfold readFrame at h
  split at h
  · cases h
  · cases h
  · rename_i lengthBytes rest1 h4
    obtain ⟨hl4, harr⟩ := readExactOrEof_ok h4
    cases lengthBytes with
    | nil => cases hl4
    | cons b bs => exact ⟨b, _, harr⟩

/-- A frame that is read was the first on the pipe. -/
theorem readFrame_ok {body frame tail : Bytes} {arrivals rest : List Arrival}
    (h : readFrame arrivals = (.ok (some frame), rest)) (hsize : body.length < 2 ^ 32)
    (hpipe : arrived arrivals = wireOf body ++ tail) : frame = body ∧ arrived rest = tail := by
  unfold readFrame at h
  split at h
  · cases h
  · cases h
  · rename_i lengthBytes rest1 h4
    obtain ⟨hl4, harr⟩ := readExactOrEof_ok h4
    rw [harr, wireOf, List.append_assoc] at hpipe
    obtain ⟨rfl, hrest1⟩ := List.append_inj hpipe (by rw [hl4, beBytes_length])
    dsimp only at h
    rw [beNat_beBytes (by omega)] at h
    split at h
    · cases h
    · split at h
      · cases h
      · obtain ⟨hlen, harr1⟩ := readExactOrEof_ok (h : readExactOrEof body.length rest1 = _)
        rw [hrest1] at harr1
        obtain ⟨rfl, hrest⟩ := List.append_inj harr1 hlen.symm
        exact ⟨rfl, hrest.symm⟩

/-! ### The stream is serial -/

variable {xs : List (Act F)} {l l' : Link} {x : Act F}

/-- The response is what the body decodes to, if it decodes. -/
def Decodes (hmac : Hmac) (key : Hash32) (r : Except BridgeError Message) (body : Bytes) : Prop :=
  ∀ m, r = .ok m → decodeFrameBody hmac key body = .ok m

/-- The answers in order: those that calls have received, those in the channel, and those that are
not read. A reader that has returned may have left one error behind them. -/
structure Serial (hmac : Hmac) (key : Hash32) (l : Link) (received queued unread : List Bytes)
    (rs last : List (Except BridgeError Message)) : Prop where
  answers : l.answers = received ++ queued ++ unread
  responses : l.responses = rs ++ last
  decodes : List.Forall₂ (Decodes hmac key) rs queued
  stdout : l.reading = true → last = [] ∧ l.stdout = unread.flatMap wireOf
  last_le : last.length ≤ 1
  last_error : ∀ r ∈ last, ∃ e, r = .error e
  serial : received.length + l.waiting.toList.length = l.requests.length ∨
    l.reading = false ∧ l.responses = []

structure LinkInv (hmac : Hmac) (key : Hash32) (xs : List (Act F)) (l : Link) : Prop where
  wrote : (wroteIn xs).length = l.requests.length
  waiting : ∀ w, l.waiting = some w → ∃ ws, wroteIn xs = ws ++ [w]
  answered : answersIn xs = l.answers
  due : l.answers.length ≤ l.requests.length
  size : ∀ body ∈ l.answers, body.length < 2 ^ 32
  poisoned : l.client.desynchronized = true → l.waiting = none
  serial : l.client.desynchronized = false →
    ∃ received queued unread rs last, Serial hmac key l received queued unread rs last

theorem wroteIn_concat : wroteIn (xs ++ [x]) = wroteIn xs ++ wroteIn [x] :=
  List.filterMap_append

theorem answersIn_concat : answersIn (xs ++ [x]) = answersIn xs ++ answersIn [x] :=
  List.filterMap_append

theorem linkInv_start : LinkInv (F := F) hmac key [] {} where
  wrote := rfl
  waiting := by rintro _ ⟨⟩
  answered := rfl
  due := Nat.le_refl _
  size := by rintro _ ⟨⟩
  poisoned := fun _ => rfl
  serial := fun _ => ⟨[], [], [], [], [], rfl, rfl, .nil, fun _ => ⟨rfl, rfl⟩, Nat.zero_le _,
    by rintro _ ⟨⟩, .inl rfl⟩

theorem send_desynchronized {key' : Hash32} {c c' : BridgeClient} {e : Entry} {broken : Bool}
    {r : Except CallError (UInt64 × Bytes)} (h : c.send hmac key' e broken = (r, c')) :
    c'.desynchronized = c.desynchronized := by
  unfold BridgeClient.send at h
  split at h <;> cases h <;> rfl

theorem send_ok {key' : Hash32} {c c' : BridgeClient} {e : Entry} {broken : Bool}
    {requestId : UInt64} {wire : Bytes}
    (h : c.send hmac key' e broken = (.ok (requestId, wire), c')) : c.desynchronized = false := by
  unfold BridgeClient.send at h
  split at h
  · cases h
  · rename_i hd
    exact Bool.eq_false_of_not_eq_true hd

theorem send_poisoned {key' : Hash32} {c c' : BridgeClient} {e : Entry} {broken : Bool}
    {r : Except CallError (UInt64 × Bytes)} (hd : c.desynchronized = true)
    (h : c.send hmac key' e broken = (r, c')) : r = .error .desynchronized := by
  unfold BridgeClient.send at h
  rw [if_pos hd] at h
  exact (Prod.mk.inj h).1.symm

theorem Serial.frame {received queued unread : List Bytes} {c : BridgeClient} {o i : Bool}
    {rs last : List (Except BridgeError Message)}
    (hs : Serial hmac key l received queued unread rs last) :
    Serial hmac key { l with client := c, stdoutClosed := o, stdinClosed := i } received queued
      unread rs last :=
  ⟨hs.answers, hs.responses, hs.decodes, hs.stdout, hs.last_le, hs.last_error, hs.serial⟩

/-- A turn of the reader that goes on has taken the first frame that was not read. -/
theorem Serial.read {received queued unread : List Bytes} {arrivals rest : List Arrival}
    {rs last : List (Except BridgeError Message)} {sent : Option (Except BridgeError Message)}
    (hs : Serial hmac key l received queued unread rs last)
    (hsize : ∀ body ∈ l.answers, body.length < 2 ^ 32) (hreading : l.reading = true)
    (hpipe : arrived arrivals = l.stdout) (h : readerTurn hmac key arrivals = (sent, some rest)) :
    ∃ body unread' r, unread = body :: unread' ∧ sent = some r ∧
      Serial hmac key { l with stdout := arrived rest, responses := l.responses ++ sent.toList }
        received (queued ++ [body]) unread' (rs ++ [r]) [] := by
  obtain ⟨hlast, hout⟩ := hs.stdout hreading
  unfold readerTurn at h
  split at h
  · rename_i frame rest' hread
    -- the frame that was read is the first of those that were not
    have hfirst : ∃ unread', unread = frame :: unread' ∧ arrived rest' = unread'.flatMap wireOf := by
      rw [hout] at hpipe
      cases unread with
      | nil =>
        obtain ⟨b, bs, hn⟩ := readFrame_nonempty hread
        cases hpipe.symm.trans hn
      | cons body unread =>
        have hb := hsize body (by rw [hs.answers]; simp)
        obtain ⟨rfl, hrest⟩ := readFrame_ok hread hb (hpipe.trans List.flatMap_cons)
        exact ⟨unread, rfl, hrest⟩
    obtain ⟨unread', rfl, hrest⟩ := hfirst
    have hgo : ∀ r, Decodes hmac key r frame → Serial hmac key
        { l with stdout := arrived rest', responses := l.responses ++ (some r).toList }
        received (queued ++ [frame]) unread' (rs ++ [r]) [] := fun r hr => by
      refine ⟨?_, ?_, List.rel_append hs.decodes (.cons hr .nil), fun _ => ⟨rfl, hrest⟩, Nat.zero_le _,
        by rintro _ ⟨⟩, ?_⟩
      · show l.answers = _
        rw [hs.answers]
        simp only [List.append_assoc, List.cons_append, List.nil_append]
      · show l.responses ++ [r] = _
        rw [hs.responses, hlast, List.append_nil, List.append_nil]
      · refine .inl (hs.serial.resolve_right fun ⟨hr, _⟩ => ?_)
        rw [hreading] at hr
        cases hr
    split at h
    · rename_i m hm
      cases h
      exact ⟨frame, unread', .ok m, rfl, rfl, hgo _ (by rintro _ ⟨⟩; exact hm)⟩
    · rename_i e hm
      cases h
      exact ⟨frame, unread', .error e, rfl, rfl, hgo _ (by rintro _ ⟨⟩)⟩
    · cases h
  · cases h
  · cases h

/-- A turn after which the reader returns leaves an error behind, or nothing. -/
theorem Serial.stop {received queued unread : List Bytes} {arrivals : List Arrival}
    {rs last : List (Except BridgeError Message)} {sent : Option (Except BridgeError Message)}
    (hs : Serial hmac key l received queued unread rs last) (hreading : l.reading = true)
    (h : readerTurn hmac key arrivals = (sent, none)) :
    Serial hmac key { l with reading := false, responses := l.responses ++ sent.toList }
      received queued unread rs sent.toList := by
  have hlast := (hs.stdout hreading).1
  have herror : ∀ r ∈ sent.toList, ∃ e, r = .error e := by
    unfold readerTurn at h
    split at h
    · split at h <;> cases h
      rintro _ ⟨⟩
    · cases h
      exact fun r hr => ⟨_, List.mem_singleton.1 hr⟩
    · cases h
      exact fun r hr => ⟨_, List.mem_singleton.1 hr⟩
  refine ⟨hs.answers, ?_, hs.decodes, by rintro ⟨⟩, ?_, herror, ?_⟩
  · show l.responses ++ _ = _
    rw [hs.responses, hlast, List.append_nil]
  · cases sent with
    | none => exact Nat.zero_le _
    | some r => exact Nat.le_refl _
  · refine .inl (hs.serial.resolve_right fun ⟨hr, _⟩ => ?_)
    rw [hreading] at hr
    cases hr

/-- The call that waits receives the answer to its request, or the error that a reader left. -/
theorem Serial.receive {received queued unread : List Bytes} {w : Entry × UInt64}
    {r : Except BridgeError Message} {rs last responses : List (Except BridgeError Message)}
    (hs : Serial hmac key l received queued unread rs last) (hwait : l.waiting = some w)
    (h : l.responses = r :: responses) :
    (∃ received queued rs last, Serial hmac key { l with waiting := none, responses } received
      queued unread rs last) ∧
    ∀ m, r = .ok m → ∃ body, l.answers[l.requests.length - 1]? = some body ∧
      decodeFrameBody hmac key body = .ok m := by
  have hcount : received.length + 1 = l.requests.length := by
    have hserial := hs.serial.resolve_right fun ⟨_, hr⟩ => by
      rw [h] at hr
      cases hr
    rwa [hwait] at hserial
  have hresp := hs.responses
  rw [h] at hresp
  cases hdec : hs.decodes with
  | nil =>
    -- nothing is queued, so this is what the reader left
    have hlast : last = r :: responses := hresp.symm
    have hle := hs.last_le
    rw [hlast] at hle
    obtain rfl : responses = [] := List.length_eq_zero_iff.1 (by simpa using hle)
    have hgone : l.reading = false := by
      cases hr : l.reading with
      | false => rfl
      | true =>
        rw [(hs.stdout hr).1] at hlast
        cases hlast
    obtain ⟨e, he⟩ := hs.last_error r (hlast ▸ List.mem_cons_self)
    refine ⟨⟨received, [], [], [], hs.answers, rfl, .nil, fun hr => ?_, Nat.zero_le _,
      by rintro _ ⟨⟩, .inr ⟨hgone, rfl⟩⟩, fun m hm => ?_⟩
    · rw [show l.reading = true from hr] at hgone
      cases hgone
    · rw [he] at hm
      cases hm
  | @cons r' body rs' queued' hr hrest =>
    rw [List.cons_append] at hresp
    obtain ⟨rfl, htail⟩ := List.cons.inj hresp
    refine ⟨⟨received ++ [body], queued', rs', last, ?_, htail, hrest, hs.stdout, hs.last_le,
      hs.last_error, .inl ?_⟩, fun m hm => ⟨body, ?_, hr m hm⟩⟩
    · show l.answers = _
      rw [hs.answers]
      simp only [List.append_assoc, List.cons_append, List.nil_append]
    · show (received ++ [body]).length + 0 = l.requests.length
      rw [List.length_append, List.length_singleton]
      omega
    · rw [hs.answers, show l.requests.length - 1 = received.length by omega, List.append_assoc,
        List.getElem?_append_right (Nat.le_refl _), Nat.sub_self]
      rfl

theorem LinkInv.step (hi : LinkInv hmac key xs l) (hstep : LinkStep parseF64 hmac key l x l') :
    LinkInv hmac key (xs ++ [x]) l' := by
  have hw : ∀ w, wroteIn [x] = [] → l.waiting = some w → ∃ ws, wroteIn (xs ++ [x]) = ws ++ [w] :=
    fun w hx hwait => by
      obtain ⟨ws, hws⟩ := hi.waiting w hwait
      exact ⟨ws, by rw [wroteIn_concat, hx, List.append_nil, hws]⟩
  have hwrote : wroteIn [x] = [] → (wroteIn (xs ++ [x])).length = l.requests.length := fun hx => by
    rw [wroteIn_concat, hx, List.append_nil, hi.wrote]
  have hans : answersIn [x] = [] → answersIn (xs ++ [x]) = l.answers := fun hx => by
    rw [answersIn_concat, hx, List.append_nil, hi.answered]
  cases hstep with
  | refused hidle h =>
    have hd := send_desynchronized h
    refine ⟨hwrote rfl, fun w => hw w rfl, hans rfl, hi.due, hi.size, fun _ => hidle, fun hc => ?_⟩
    obtain ⟨received, queued, unread, rs, last, hs⟩ := hi.serial (hd ▸ hc)
    exact ⟨received, queued, unread, rs, last, hs.frame⟩
  | @wrote _ e requestId wire c hidle h =>
    have hd := send_ok h
    refine ⟨?_, fun w hwait => ⟨wroteIn xs, ?_⟩, hans rfl, ?_, hi.size, fun hc => ?_, fun _ => ?_⟩
    · show _ = (l.requests ++ [wire]).length
      rw [wroteIn_concat, List.length_append, List.length_append, hi.wrote]
      rfl
    · cases hwait
      exact wroteIn_concat
    · show l.answers.length ≤ (l.requests ++ [wire]).length
      rw [List.length_append]
      exact Nat.le_add_right_of_le hi.due
    · cases (hd.symm.trans (send_desynchronized h).symm).trans hc
    · obtain ⟨received, queued, unread, rs, last, hs⟩ := hi.serial hd
      refine ⟨received, queued, unread, rs, last, hs.answers, hs.responses, hs.decodes, hs.stdout,
        hs.last_le, hs.last_error, hs.serial.imp (fun hcount => ?_) id⟩
      show received.length + 1 = (l.requests ++ [wire]).length
      rw [hidle] at hcount
      rw [List.length_append, ← hcount]
      rfl
  | answer body hsize hdue hopen =>
    refine ⟨hwrote rfl, fun w => hw w rfl, ?_, ?_, ?_, hi.poisoned, fun hd => ?_⟩
    · rw [answersIn_concat, hi.answered]
      rfl
    · show (l.answers ++ [body]).length ≤ l.requests.length
      rw [List.length_append]
      exact hdue
    · intro b hb
      rcases List.mem_append.1 hb with hb | hb
      · exact hi.size b hb
      · rw [List.mem_singleton.1 hb]
        exact hsize
    · obtain ⟨received, queued, unread, rs, last, hs⟩ := hi.serial hd
      refine ⟨received, queued, unread ++ [body], rs, last, ?_, hs.responses, hs.decodes,
        fun hr => ⟨(hs.stdout hr).1, ?_⟩, hs.last_le, hs.last_error, hs.serial⟩
      · show l.answers ++ [body] = _
        rw [hs.answers, List.append_assoc]
      · show l.stdout ++ wireOf body = _
        rw [(hs.stdout hr).2, List.flatMap_append, List.flatMap_singleton]
  | closeStdout | closeStdin =>
    refine ⟨hwrote rfl, fun w => hw w rfl, hans rfl, hi.due, hi.size, hi.poisoned, fun hd => ?_⟩
    obtain ⟨received, queued, unread, rs, last, hs⟩ := hi.serial hd
    exact ⟨received, queued, unread, rs, last, hs.frame⟩
  | read hreading hpipe hready h =>
    refine ⟨hwrote rfl, fun w => hw w rfl, hans rfl, hi.due, hi.size, hi.poisoned, fun hd => ?_⟩
    obtain ⟨received, queued, unread, rs, last, hs⟩ := hi.serial hd
    obtain ⟨body, unread', r, -, -, hs'⟩ := hs.read hi.size hreading hpipe h
    exact ⟨_, _, _, _, _, hs'⟩
  | stop hreading hpipe hready h =>
    refine ⟨hwrote rfl, fun w => hw w rfl, hans rfl, hi.due, hi.size, hi.poisoned, fun hd => ?_⟩
    obtain ⟨received, queued, unread, rs, last, hs⟩ := hi.serial hd
    exact ⟨_, _, _, _, _, hs.stop hreading h⟩
  | receive hwait h =>
    refine ⟨hwrote rfl, by rintro _ ⟨⟩, hans rfl, hi.due, hi.size, fun _ => rfl, fun hd => ?_⟩
    obtain ⟨received, queued, unread, rs, last, hs⟩ := hi.serial hd
    obtain ⟨⟨received, queued, rs, last, hs'⟩, -⟩ := hs.receive hwait h
    exact ⟨_, _, _, _, _, hs'⟩
  | timeout hwait h hreading =>
    exact ⟨hwrote rfl, by rintro _ ⟨⟩, hans rfl, hi.due, hi.size, fun _ => rfl, by rintro ⟨⟩⟩
  | disconnected hwait h hgone =>
    refine ⟨hwrote rfl, by rintro _ ⟨⟩, hans rfl, hi.due, hi.size, fun _ => rfl, fun hd => ?_⟩
    obtain ⟨received, queued, unread, rs, last, hs⟩ := hi.serial hd
    exact ⟨received, queued, unread, rs, last, hs.answers, hs.responses, hs.decodes, hs.stdout,
      hs.last_le, hs.last_error, .inr ⟨hgone, h⟩⟩

theorem linkInv_of_path (hp : Path (LinkStep parseF64 hmac key) {} xs l) :
    LinkInv hmac key xs l := by
  induction xs using List.reverseRecOn generalizing l with
  | nil =>
    obtain rfl := Path.nil_iff.1 hp
    exact linkInv_start
  | append_singleton xs x ih =>
    obtain ⟨u, hu, hstep⟩ := Path.append_iff.1 hp
    exact (ih hu).step (Path.singleton_iff.1 hstep)

theorem finish_isAnswer {e : Entry} {requestId : UInt64} {r : Except BridgeError Message}
    (h : IsAnswer (e.finish parseF64 requestId r)) : ∃ m, r = .ok m := by
  cases r with
  | ok m => exact ⟨m, rfl⟩
  | error err => exact h.elim

theorem finish_ne_timeout {e : Entry} {requestId : UInt64} {r : Except BridgeError Message} :
    e.finish parseF64 requestId r ≠ .error .timeout := by
  cases r with
  | error err => rintro ⟨⟩
  | ok m =>
    intro h
    unfold Entry.finish acceptResponse at h
    rw [show (Except.mapError CallError.bridge (.ok m)) = .ok m from rfl, ok_bind] at h
    split at h
    · cases h
    · split at h
      · cases h
      · cases e with
        | call => cases h
        | advance currentCycle =>
          rw [ok_bind] at h
          unfold Entry.reply at h
          dsimp only at h
          cases hp : parseAdvanceResponse parseF64 m <;> rw [hp] at h <;> cases h

/-- A call that returns is one that waited; for an answer, it is its own. -/
theorem LinkInv.returned {r : Except CallError (Reply F)} (hi : LinkInv hmac key xs l)
    (hstep : LinkStep parseF64 hmac key l (.returned r) l') (hr : IsAnswer r) :
    OwnAnswer parseF64 hmac key xs r := by
  cases hstep with
  | @receive e requestId received responses hwait h =>
    have hd : l.client.desynchronized = false := by
      cases hc : l.client.desynchronized with
      | false => rfl
      | true => cases (hi.poisoned hc).symm.trans hwait
    obtain ⟨_, _, _, _, _, hs⟩ := hi.serial hd
    obtain ⟨m, rfl⟩ := finish_isAnswer hr
    obtain ⟨body, hbody, hm⟩ := (hs.receive hwait h).2 m rfl
    obtain ⟨ws, hws⟩ := hi.waiting _ hwait
    have hlen : l.requests.length - 1 = ws.length := by
      rw [← hi.wrote, hws, List.length_append]
      rfl
    exact ⟨ws, e, requestId, body, m, hws, by rw [hi.answered, ← hlen]; exact hbody, hm, rfl⟩
  | timeout => exact hr.elim
  | disconnected => exact hr.elim

/-- After a timeout no call gets further than the latch. -/
theorem poisoned_of_path {post : List (Act F)} (hp : Path (LinkStep parseF64 hmac key) l post l')
    (hd : l.client.desynchronized = true) (hw : l.waiting = none) : ∀ x ∈ post, Poisoned x := by
  induction hp with
  | nil => rintro _ ⟨⟩
  | @cons l l1 l2 x xs hstep _ ih =>
    have hone : Poisoned x ∧ l1.client.desynchronized = true ∧ l1.waiting = none := by
      cases hstep with
      | refused hidle h =>
        cases send_poisoned hd h
        exact ⟨rfl, (send_desynchronized h).trans hd, hw⟩
      | wrote hidle h => cases hd.symm.trans (send_ok h)
      | answer | closeStdout | closeStdin | read | stop => exact ⟨trivial, hd, hw⟩
      | receive hwait | timeout hwait | disconnected hwait => cases hw.symm.trans hwait
    intro y hy
    rcases List.mem_cons.1 hy with rfl | hy
    · exact hone.1
    · exact ih hone.2.1 hone.2.2 y hy

/-- In every run, a call that returns a message or the error of a worker returns the answer to its
own request, and once a call has timed out every later call fails before it writes. -/
theorem calls_get_own_answers (hp : Path (LinkStep parseF64 hmac key) {} xs l) :
    (∀ pre r post, xs = pre ++ .returned r :: post → IsAnswer r →
      OwnAnswer parseF64 hmac key pre r) ∧
    ∀ pre post, xs = pre ++ .returned (.error .timeout) :: post → ∀ x ∈ post, Poisoned x := by
  refine ⟨?_, ?_⟩
  · rintro pre r post rfl hr
    obtain ⟨u, hu, hrest⟩ := Path.append_iff.1 hp
    obtain ⟨v, hstep, -⟩ := Path.cons_iff.1 hrest
    exact (linkInv_of_path hu).returned hstep hr
  · rintro pre post rfl
    obtain ⟨u, hu, hrest⟩ := Path.append_iff.1 hp
    obtain ⟨v, hstep, hpost⟩ := Path.cons_iff.1 hrest
    generalize hx : Act.returned (F := F) (.error .timeout) = x at hstep
    cases hstep with
    | timeout => exact poisoned_of_path hpost rfl rfl
    | receive => exact absurd (Act.returned.inj hx).symm finish_ne_timeout
    | refused | wrote | answer | closeStdout | closeStdin | read | stop | disconnected => cases hx

end

/-! ### A snapshot -/

/-- The worker's answer for a gradient without axes. -/
def emptySnapshot : Message :=
  { messageType := "snapshot_response", requestId := 1, payload := [("values", .map [])] }

theorem calls_get_own_answers_snapshot : ∃ pre r l,
    Path (LinkStep String.toNat? noHmac (.replicate 0)) {} (pre ++ [.returned r]) l ∧
      IsAnswer r ∧ OwnAnswer String.toNat? noHmac (.replicate 0) pre r := by
  have hmax : (encodeFrameBody noHmac (.replicate 0) emptySnapshot).length ≤ maxFrameBodySize := by
    decide
  have hwf : WellFormed emptySnapshot := by
    simp [WellFormed, emptySnapshot, Value.WF, wfEntries_iff, OrdMap.Sorted]
  have hm : decodeFrameBody noHmac (.replicate 0)
      (encodeFrameBody noHmac (.replicate 0) emptySnapshot) = .ok emptySnapshot :=
    decodeFrameBody_encode hwf hmax
  generalize encodeFrameBody noHmac (.replicate 0) emptySnapshot = body at hmax hm
  have hsize : body.length < 2 ^ 32 := by
    unfold maxFrameBodySize at hmax
    omega
  obtain ⟨wire, hwire⟩ : ∃ wire, writeFrame (encodeFrameBody noHmac (.replicate 0)
      { messageType := "snapshot", requestId := 1, payload := [] }) = .ok wire :=
    ⟨_, if_neg (by decide)⟩
  have hsend : ({} : BridgeClient).send noHmac (.replicate 0) (.call "snapshot" []) false =
      (.ok (1, wire), { nextRequestId := 2 }) := by
    unfold BridgeClient.send
    rw [if_neg (by decide)]
    simp only [Entry.messageType, Entry.payload]
    rw [hwire]
    rfl
  have hleft : Leaves [] (unread (wireOf body) []) (wireOf body ++ ready []) (later []) :=
    unread_leaves
  have hready : ready (unread (wireOf body) []) = beBytes 4 body.length ++ body ++ [] :=
    hleft.ready_eq
  obtain ⟨rest, hread, -⟩ := readFrame_whole ⟨beBytes_length, beNat_beBytes (by omega), hmax⟩ hready
  have hturn : readerTurn noHmac (.replicate 0) (unread (wireOf body) []) =
      (some (.ok emptySnapshot), some rest) := by
    unfold readerTurn
    rw [hread]
    dsimp only
    rw [hm]
  have hpipe : arrived (unread (wireOf body) []) = wireOf body :=
    arrived_unread.trans (List.append_nil _)
  have hpath : Path (LinkStep String.toNat? noHmac (.replicate 0)) {}
      ([.wrote (.call "snapshot" []) 1, .answered body, .other] ++
        [.returned (Entry.finish String.toNat? (.call "snapshot" []) 1 (.ok emptySnapshot))]) _ :=
    .cons (.wrote rfl hsend) <| .cons (.answer body hsize (Nat.zero_lt_one) rfl) <|
    .cons (.read rfl hpipe (by rw [hread]; exact False.elim) hturn) <|
    .cons (.receive rfl rfl) .nil
  exact ⟨_, _, _, hpath, trivial, (calls_get_own_answers hpath).1 _ _ [] rfl trivial⟩

end Myco.Controller
